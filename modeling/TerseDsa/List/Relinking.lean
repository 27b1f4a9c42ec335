import TerseDsa.Foundation.Merging
import TerseDsa.List.Editing

namespace TerseDsa

open Foundation Run

/-!
# Merging and sorting nodes

Nodes are merged along their `next` links alone, so that their `prev` links are
stale until one walk repairs them.  A `Chain` is what is known of nodes in the
meantime.  No node is made or given back: a merge is one of the nodes with
their elems.
-/

namespace TdaList

variable {α C S : Type} {heap : ListMem α} {blocks later last : Blocks AlTag (ListNode α)} {self src : TdaList}
  {tag : AlTag} {nodes left right merged : List (Addr × α)} {entry : Addr × α} {head : Option Addr}
  {cmp : Cmp α C} {ctx : C}

/-! ## Chains -/

/-- Nodes linked in one direction, whatever their other links are. -/
structure Chain (blocks : Blocks AlTag (ListNode α)) (tag : AlTag) (head : Option Addr) (nodes : List (Addr × α)) :
    Prop where
  stored : forall entry, entry ∈ nodes -> NodeAt blocks tag entry
  walk : Seg (nextLink blocks) head (addrs nodes) none

namespace Chain

theorem head_eq (chain : Chain blocks tag head nodes) : head = (addrs nodes).head? := by
  rw [chain.walk.start_eq, Option.or_none]

/-- The first node and the chain behind it. -/
theorem behind (chain : Chain blocks tag head (entry :: nodes)) :
    Chain blocks tag (nextLink blocks entry.1) nodes :=
  ⟨fun other inside => chain.stored other (List.mem_cons_of_mem entry inside), chain.walk.2⟩

theorem congr (chain : Chain blocks tag head nodes) (same : forall addr, addr ∈ addrs nodes -> later addr = blocks addr) :
    Chain later tag head nodes :=
  ⟨fun entry inside => (chain.stored entry inside).congr (same entry.1 (addr_mem inside)),
    chain.walk.congr fun addr inside => nextLink_congr (same addr inside)⟩

end Chain

theorem Holds.chain (holds : Holds blocks self nodes) : Chain blocks (nodeTag self) self.head nodes :=
  ⟨holds.stored, holds.linked.fwd⟩

/-! ## One link -/

theorem ends_linkAfter {place target : Option Addr}
    (there : forall node, place = some node -> exists tag val, NodeAt heap.blocks tag (node, val))
    {post : Option Addr -> ListMem α -> Prop}
    (holds : forall later : ListMem α,
      Wired heap.blocks later.blocks place.toList (bend (nextLink heap.blocks) place target)
        (prevLink heap.blocks) -> post (endAfter head place target) later) :
    Ends (linkAfter α head place target) heap post := by
  cases place with
  | none =>
      simp only [linkAfter, ends_pure]
      exact holds heap (Wired.refl _ _)
  | some node =>
      rcases there node rfl with ⟨tag, val, at_⟩
      simp only [linkAfter, ends_bind]
      apply ends_setNext at_
      intro later wired
      exact (ends_pure _ _ _).mpr (holds later wired)

/-! ## Merging -/

/-- The comparator on nodes. -/
def byElem (cmp : Cmp α C) (l r : Addr × α) (ctx : C) : Bool × C := rightGoesFirst cmp l.2 r.2 ctx

theorem elems_mergeBy : mergeBy (rightGoesFirst cmp) (elems left) (elems right) ctx =
    (elems (mergeBy (byElem cmp) left right ctx).1, (mergeBy (byElem cmp) left right ctx).2) :=
  mergeBy_map Prod.snd

/-- In the midst of a merge: some nodes are linked already, of both chains there is a rest. -/
structure Weaving (cmp : Cmp α C) (ctx : C) (left right : List (Addr × α)) (tag : AlTag)
    (blocks now : Blocks AlTag (ListNode α)) (vars : Merging C) (merged l r : List (Addr × α)) : Prop where
  front : exists stop, Seg (nextLink now) vars.head (addrs merged) stop
  lastIs : vars.last = (addrs merged).getLast?
  restLeft : Chain now tag vars.a l
  restRight : Chain now tag vars.b r
  perm : (merged ++ (l ++ r)).Perm (left ++ right)
  result : mergeBy (byElem cmp) left right ctx =
    (merged ++ (mergeBy (byElem cmp) l r vars.ctx).1, (mergeBy (byElem cmp) l r vars.ctx).2)
  rewired : Rewired blocks now (addrs (left ++ right))

namespace Weaving

variable {now next : Blocks AlTag (ListNode α)} {vars : Merging C} {l r rest : List (Addr × α)} {target : Option Addr}

theorem nodup (state : Weaving cmp ctx left right tag blocks now vars merged l r)
    (distinct : (addrs (left ++ right)).Nodup) : (addrs merged ++ (addrs l ++ addrs r)).Nodup := by
  have same := (state.perm.map Prod.fst).nodup_iff.mpr distinct
  simp only [List.map_append] at same
  exact same

/-- The last node that was linked. -/
theorem there (state : Weaving cmp ctx left right tag blocks now vars merged l r)
    (stored : forall entry, entry ∈ left ++ right -> NodeAt blocks tag entry) {node : Addr}
    (at_ : vars.last = some node) : exists tag val, NodeAt now tag (node, val) := by
  rw [state.lastIs] at at_
  rcases mem_addrs.mp (List.mem_of_getLast? at_) with ⟨⟨node, val⟩, inside, rfl⟩
  exact ⟨tag, val, state.rewired.node (stored _ (state.perm.mem_iff.mp (List.mem_append_left _ inside)))⟩

/-- Only links of nodes of the chains are written. -/
theorem written (state : Weaving cmp ctx left right tag blocks now vars merged l r)
    {nextOf prevOf : Addr -> Option Addr} (wired : Wired now next vars.last.toList nextOf prevOf) :
    Rewired blocks next (addrs (left ++ right)) := by
  apply state.rewired.trans
  apply wired.rewired.mono
  intro node inside
  rw [Option.mem_toList, state.lastIs] at inside
  rcases mem_addrs.mp (List.mem_of_getLast? inside) with ⟨entry, member, rfl⟩
  exact addr_mem (state.perm.mem_iff.mp (List.mem_append_left _ member))

/-- What was not linked yet is not touched. -/
theorem beside (state : Weaving cmp ctx left right tag blocks now vars merged l r) {prevOf : Addr -> Option Addr}
    (wired : Wired now next vars.last.toList (bend (nextLink now) vars.last target) prevOf)
    (chain : Chain now tag head rest) (apart : (addrs merged).Disjoint (addrs rest)) : Chain next tag head rest := by
  refine ⟨fun entry inside => wired.node (chain.stored entry inside), ?_⟩
  rw [wired.next_eq]
  apply chain.walk.bend_outside
  intro node at_
  rw [state.lastIs] at at_
  exact not_mem_of_getLast? apart at_

/-- The links now lead to where the last one was pointed. -/
theorem leads (state : Weaving cmp ctx left right tag blocks now vars merged l r) {prevOf : Addr -> Option Addr}
    (wired : Wired now next vars.last.toList (bend (nextLink now) vars.last target) prevOf)
    (distinct : (addrs merged).Nodup) :
    Seg (nextLink next) (endAfter vars.head vars.last target) (addrs merged) target := by
  rcases state.front with ⟨stop, walk⟩
  rw [wired.next_eq, state.lastIs]
  exact walk.bent distinct

/-- One node is linked to the last one, and `rest` is what its chain has behind it. -/
theorem linked {vars' : Merging C} {l' r' : List (Addr × α)} {prevOf : Addr -> Option Addr}
    (state : Weaving cmp ctx left right tag blocks now vars merged l r) (distinct : (addrs (left ++ right)).Nodup)
    (wired : Wired now next vars.last.toList (bend (nextLink now) vars.last (some entry.1)) prevOf)
    (moved : (entry :: (l' ++ r')).Perm (l ++ r)) (headIs : vars'.head = endAfter vars.head vars.last (some entry.1))
    (lastIs : vars'.last = some entry.1) (chainLeft : Chain now tag vars'.a l') (chainRight : Chain now tag vars'.b r')
    (result : mergeBy (byElem cmp) l r vars.ctx =
      (entry :: (mergeBy (byElem cmp) l' r' vars'.ctx).1, (mergeBy (byElem cmp) l' r' vars'.ctx).2)) :
    Weaving cmp ctx left right tag blocks next vars' (merged ++ [entry]) l' r' := by
  have apart := List.nodup_append'.mp (state.nodup distinct)
  have here : (addrs l ++ addrs r).Perm (entry.1 :: (addrs l' ++ addrs r')) := by
    have images := moved.map Prod.fst
    simp only [List.map_cons, List.map_append] at images
    exact images.symm
  have fresh : entry.1 ∉ addrs merged :=
    fun inside => apart.2.2 inside (here.mem_iff.mpr List.mem_cons_self)
  have notRest : forall {addr}, addr ∈ addrs merged -> addr ∉ addrs l' ++ addrs r' :=
    fun inside also => apart.2.2 inside (here.mem_iff.mpr (List.mem_cons_of_mem _ also))
  have unchanged : nextLink next entry.1 = nextLink now entry.1 := by
    rw [wired.next_eq]
    apply bend_of_ne
    rw [state.lastIs]
    exact fun same => fresh (List.mem_of_getLast? same)
  constructor
  · refine ⟨nextLink next entry.1, ?_⟩
    rw [addrs_append, addrs_cons, addrs_nil, headIs]
    exact Seg.snoc_iff.mpr ⟨state.leads wired apart.1, rfl⟩
  · rw [addrs_append, addrs_cons, addrs_nil, List.getLast?_append, lastIs]
    rfl
  · exact state.beside wired chainLeft fun _ inside also => notRest inside (List.mem_append_left _ also)
  · exact state.beside wired chainRight fun _ inside also => notRest inside (List.mem_append_right _ also)
  · rw [List.append_assoc, List.singleton_append]
    exact (moved.append_left merged).trans state.perm
  · rw [state.result, result, List.append_assoc]
    rfl
  · exact state.written wired

end Weaving

/-- The nodes of two chains are linked in one, by the answers of the comparator. -/
theorem ends_mergeChains {a b : Option Addr} {bound : Nat} (chainLeft : Chain heap.blocks tag a left)
    (chainRight : Chain heap.blocks tag b right) (distinct : (addrs (left ++ right)).Nodup)
    (enough : left.length + right.length ≤ bound) {post : Option Addr × C -> ListMem α -> Prop}
    (done : forall (head : Option Addr) (later : ListMem α),
      Chain later.blocks tag head (mergeBy (byElem cmp) left right ctx).1 ->
      Rewired heap.blocks later.blocks (addrs (left ++ right)) ->
      post (head, (mergeBy (byElem cmp) left right ctx).2) later) :
    Ends (mergeChains bound a b cmp ctx) heap post := by
  have stored : forall entry, entry ∈ left ++ right -> NodeAt heap.blocks tag entry := by
    intro entry inside
    exact (List.mem_append.mp inside).elim (chainLeft.stored entry) (chainRight.stored entry)
  unfold mergeChains
  refine ends_loop (fun todo (vars : Merging C) now => exists merged l r, todo = l.length + r.length ∧
    Weaving cmp ctx left right tag heap.blocks now.blocks vars merged l r) ?_ (n := left.length + right.length)
    ⟨[], left, right, rfl, ⟨none, rfl⟩, rfl, chainLeft, chainRight, List.Perm.refl _, rfl, Rewired.refl _ _⟩
    (Nat.lt_succ_of_le enough)
  rintro todo ⟨head, last, a, b, now⟩ mid ⟨merged, l, r, rfl, state⟩
  have atLeft := state.restLeft.head_eq
  have atRight := state.restRight.head_eq
  dsimp only at atLeft atRight ⊢
  subst atLeft atRight
  -- the last link goes to the rest of the one chain when the other is empty
  have ends : forall rest : List (Addr × α), l ++ r = rest ->
      (mergeBy (byElem cmp) l r now) = (rest, now) -> Chain mid.blocks tag (addrs rest).head? rest ->
      Ends (linkAfter α head last (addrs rest).head?) mid fun head later => post (head, now) later := by
    intro rest together merges chain
    apply ends_linkAfter fun node at_ => state.there stored at_
    intro later wired
    have apart := List.nodup_append'.mp (state.nodup distinct)
    have disjoint : (addrs merged).Disjoint (addrs rest) := by
      rw [← together, addrs_append]
      exact apart.2.2
    have joined : Chain later.blocks tag (endAfter head last (addrs rest).head?) (merged ++ rest) := by
      have behind := state.beside wired chain disjoint
      refine ⟨?_, ?_⟩
      · intro entry inside
        have member : entry ∈ left ++ right := state.perm.mem_iff.mp (by rwa [together])
        exact (state.written wired).node (stored entry member)
      · rw [addrs_append]
        exact (state.leads wired apart.1).append behind.walk
    have total := state.result
    dsimp only at total
    rw [merges] at total
    rw [total] at done
    exact done _ later joined (state.written wired)
  cases l with
  | nil =>
      have chain : Chain mid.blocks tag (addrs r).head? r := state.restRight
      have final := ends r rfl mergeBy_nil_left chain
      cases r with
      | nil =>
          simp only [addrs_nil, List.head?_nil, ends_bind, ends_pure, Option.isSome_none, Bool.false_eq_true,
            if_false]
          exact final
      | cons y r =>
          simp only [addrs_nil, List.head?_nil, ends_bind, ends_pure, Option.isSome_none, Bool.false_eq_true,
            if_false]
          exact final
  | cons x l =>
      cases r with
      | nil =>
          simp only [addrs_cons, addrs_nil, List.head?_cons, List.head?_nil, Option.isSome_some, if_true, ends_bind,
            ends_pure]
          exact ends (x :: l) (List.append_nil _) mergeBy_nil_right state.restLeft
      | cons y r =>
          rcases x with ⟨xAddr, x⟩
          rcases y with ⟨yAddr, y⟩
          have atX := state.restLeft.stored _ List.mem_cons_self
          have atY := state.restRight.stored _ List.mem_cons_self
          simp only [addrs_cons, List.head?_cons, ends_bind, ends_readNode atX, ends_readNode atY, ends_ite]
          constructor
          · intro yes
            apply ends_linkAfter fun node at_ => state.there stored at_
            intro later wired
            rw [ends_pure]
            refine ⟨((xAddr, x) :: l).length + r.length, Nat.lt_succ_self _, merged ++ [(yAddr, y)], (xAddr, x) :: l, r,
              rfl, state.linked distinct wired List.perm_middle.symm rfl rfl state.restLeft state.restRight.behind ?_⟩
            rw [mergeBy]
            exact if_pos yes
          · intro no
            apply ends_linkAfter fun node at_ => state.there stored at_
            intro later wired
            rw [ends_pure]
            refine ⟨l.length + ((yAddr, y) :: r).length, ?_, merged ++ [(xAddr, x)], l, (yAddr, y) :: r, rfl,
              state.linked distinct wired (List.Perm.refl _) rfl rfl state.restLeft.behind state.restRight ?_⟩
            · simp only [List.length_cons]
              omega
            · rw [mergeBy]
              exact if_neg no

/-! ## Repairing the links back -/

theorem ends_relinkPrev (chain : Chain heap.blocks tag self.head nodes) (len : self.len = nodes.length)
    {post : TdaList -> ListMem α -> Prop}
    (done : forall later : ListMem α, Rewired heap.blocks later.blocks (addrs nodes) ->
      Linked (nextLink later.blocks) (prevLink later.blocks) self.head (addrs nodes).getLast? (addrs nodes) ->
      post { self with tail := (addrs nodes).getLast? } later) :
    Ends (relinkPrev α self) heap post := by
  have distinct := chain.walk.nodup
  rw [relinkPrev, ends_bind]
  apply ends_loop (fun todo (vars : Option Addr × Option Addr) later => exists passed rest,
    nodes = passed ++ rest ∧ todo = rest.length ∧ vars.1 = (addrs rest).head? ∧
      vars.2 = (addrs passed).getLast? ∧ Rewired heap.blocks later.blocks (addrs nodes) ∧
      nextLink later.blocks = nextLink heap.blocks ∧
      Seg (prevLink later.blocks) vars.2 (addrs passed).reverse none)
  · rintro todo ⟨cur, prev⟩ mid ⟨passed, rest, split, rfl, rfl, rfl, rewired, same, back⟩
    dsimp only
    cases rest with
    | nil =>
        simp only [addrs_nil, List.head?_nil, ends_pure]
        rw [List.append_nil] at split
        subst split
        refine done mid rewired ⟨?_, back⟩
        rw [same]
        exact chain.walk
    | cons entry rest =>
        rcases entry with ⟨node, val⟩
        have member : (node, val) ∈ nodes := by
          rw [split]
          exact List.mem_append_right _ List.mem_cons_self
        have at_ : NodeAt mid.blocks tag (node, val) := rewired.node (chain.stored _ member)
        have walk := chain.walk
        rw [split, addrs_append, addrs_cons] at walk distinct
        have fresh : node ∉ addrs passed := (List.nodup_middle.mp distinct).notMem ∘ List.mem_append_left _
        have nextIs : nextLink heap.blocks node = (addrs rest).head? := by
          rcases Seg.append_iff.mp walk with ⟨_, _, _, behind⟩
          rw [behind.start_eq, Option.or_none]
        simp only [addrs_cons, List.head?_cons, ends_bind]
        apply ends_setPrev at_
        intro later wired
        rw [ends_readNode (wired.node at_), ends_pure]
        refine ⟨rest.length, Nat.lt_succ_self _, passed ++ [(node, val)], rest, ?_, rfl, ?_, ?_, ?_, ?_, ?_⟩
        · rw [split, List.append_assoc]
          rfl
        · rw [wired.next_eq, same, nextIs]
        · rw [addrs_append, addrs_cons, addrs_nil, List.getLast?_concat]
        · apply rewired.trans (wired.rewired.mono _)
          intro addr inside
          rw [List.mem_singleton.mp inside]
          exact addr_mem member
        · rw [wired.next_eq, same]
        · rw [addrs_append, addrs_cons, addrs_nil, List.reverse_append, wired.prev_eq]
          refine ⟨rfl, ?_⟩
          rw [Function.update_self]
          apply back.update_of_not_mem
          exact fun inside => fresh (List.mem_reverse.mp inside)
  · exact ⟨[], nodes, rfl, rfl, chain.head_eq, rfl, Rewired.refl _ _, rfl, rfl⟩
  · exact Nat.lt_succ_of_le (Nat.le_of_eq len.symm)

/-! ## Sorting -/

theorem ends_skip {n : Nat} (chain : Chain heap.blocks tag head nodes) {post : Option Addr -> ListMem α -> Prop} :
    Ends (skip α head n) heap post <-> post (addrs (nodes.drop n)).head? heap := by
  induction n generalizing head nodes with
  | zero =>
      rw [List.drop_zero, ← chain.head_eq]
      cases head <;> exact ends_pure _ _ _
  | succ n ih =>
      cases nodes with
      | nil =>
          rw [chain.head_eq]
          exact ends_pure _ _ _
      | cons entry nodes =>
          have start := chain.head_eq
          rw [addrs_cons, List.head?_cons] at start
          rw [start, skip, ends_bind, ends_readNode (chain.stored entry List.mem_cons_self),
            ih chain.behind]
          rfl

/-- A chain is cut behind one of its nodes. -/
theorem Chain.cut {front back : List (Addr × α)} {prevOf : Addr -> Option Addr}
    (chain : Chain blocks tag head (front ++ [entry] ++ back))
    (wired : Wired blocks later [entry.1] (Function.update (nextLink blocks) entry.1 none) prevOf) :
    Chain later tag head (front ++ [entry]) ∧ Chain later tag (nextLink blocks entry.1) back := by
  have walk := chain.walk
  rw [addrs_append, addrs_append, addrs_cons, addrs_nil] at walk
  have distinct := List.nodup_append'.mp walk.nodup
  rcases Seg.append_iff.mp walk with ⟨middle, before, behind⟩
  have next_ : nextLink blocks entry.1 = middle := (Seg.snoc_iff.mp before).2
  constructor
  · refine ⟨fun other inside => wired.node (chain.stored other (List.mem_append_left _ inside)), ?_⟩
    rw [addrs_append, addrs_cons, addrs_nil, wired.next_eq]
    apply before.redirect
    exact fun again => (List.nodup_append'.mp distinct.1).2.2 again (List.mem_singleton_self _)
  · refine ⟨fun other inside => wired.node (chain.stored other (List.mem_append_right _ inside)), ?_⟩
    rw [wired.next_eq, next_]
    apply behind.update_of_not_mem
    exact fun inside => distinct.2.2 (List.mem_append_right _ (List.mem_singleton_self _)) inside

/-- The last of the first so many nodes. -/
theorem exists_cut {count : Nat} (some_ : 0 < count) (few : count ≤ nodes.length) :
    exists front entry, nodes.take count = front ++ [entry] ∧
      nodes.drop (count - 1) = entry :: nodes.drop count := by
  have inside : count - 1 < nodes.length := by omega
  have next_ : count - 1 + 1 = count := Nat.sub_add_cancel some_
  have taken := List.take_succ_eq_append_getElem inside
  have dropped := List.drop_eq_getElem_cons inside
  rw [next_] at taken dropped
  exact ⟨_, _, taken, dropped⟩

/-- The halves are sorted apart, then merged. -/
theorem ends_sortChain {len : Nat} (chain : Chain heap.blocks tag head nodes) (length : nodes.length = len)
    (some_ : nodes ≠ []) {post : Option Addr × C -> ListMem α -> Prop}
    (done : forall (head : Option Addr) (later : ListMem α),
      Chain later.blocks tag head (sortBy (byElem cmp) nodes ctx).1 ->
      Rewired heap.blocks later.blocks (addrs nodes) -> post (head, (sortBy (byElem cmp) nodes ctx).2) later) :
    Ends (sortChain head len cmp ctx) heap post := by
  induction len using Nat.strong_induction_on generalizing heap head nodes ctx post with
  | _ len ih =>
      have present : head.isSome = true := by
        rw [chain.head_eq, List.isSome_head?, ne_eq, addrs, List.map_eq_nil_iff]
        exact some_
      rw [sortChain, ends_bind, ends_require]
      refine ⟨present, ?_⟩
      by_cases short : len < 2
      · rw [dif_pos short, ends_pure]
        rw [sortBy_short (by omega)] at done
        exact done head heap chain (Rewired.refl _ _)
      · rw [dif_neg short]
        dsimp only
        have distinct := chain.walk.nodup
        have long : ¬ nodes.length < 2 := length ▸ short
        rw [sortBy_long long, length] at done
        have half : 0 < len / 2 := by omega
        have few : len / 2 ≤ nodes.length := by omega
        rcases exists_cut half few with ⟨front, entry, taken, dropped⟩
        have parts : nodes = front ++ [entry] ++ nodes.drop (len / 2) := by
          rw [← taken, List.take_append_drop]
        have member : entry ∈ nodes := by
          rw [parts]
          exact List.mem_append_left _ (List.mem_append_right _ (List.mem_singleton_self entry))
        have at_ : NodeAt heap.blocks tag entry := chain.stored entry member
        rw [ends_bind, ends_skip chain, dropped, addrs_cons, List.head?_cons, ends_bind, ends_demand_some,
          ends_bind, ends_readNode at_, ends_bind]
        apply ends_setNext at_
        intro mid wired
        rw [parts] at chain
        have cut := Chain.cut chain wired
        rw [← taken] at cut
        rw [← List.take_append_drop (len / 2) nodes, addrs_append] at distinct
        have apart := List.nodup_append'.mp distinct
        have leftSome : nodes.take (len / 2) ≠ [] := by
          rw [taken]
          exact List.append_ne_nil_of_right_ne_nil _ (List.cons_ne_nil _ _)
        have rightSome : nodes.drop (len / 2) ≠ [] := by
          rw [ne_eq, List.drop_eq_nil_iff]
          omega
        rw [ends_bind]
        apply ih (len / 2) (by omega) cut.1 (by rw [List.length_take]; omega) leftSome
        intro leftHead sortedLeft leftChain leftRewired
        have rightChain := cut.2.congr fun addr inside =>
          leftRewired.outside addr fun also => apart.2.2 also inside
        rw [ends_bind]
        apply ih (len - len / 2) (by omega) rightChain (by rw [List.length_drop]; omega) rightSome
        intro rightHead sortedBoth rightChain rightRewired
        have leftNodes : (addrs (sortBy (byElem cmp) (nodes.take (len / 2)) ctx).1).Perm
            (addrs (nodes.take (len / 2))) := addrs_perm sortBy_perm
        have rightNodes : (addrs (sortBy (byElem cmp) (nodes.drop (len / 2))
            (sortBy (byElem cmp) (nodes.take (len / 2)) ctx).2).1).Perm (addrs (nodes.drop (len / 2))) :=
          addrs_perm sortBy_perm
        have leftChain := leftChain.congr fun addr inside =>
          rightRewired.outside addr fun also => apart.2.2 (leftNodes.mem_iff.mp inside) also
        have both := leftNodes.append rightNodes
        have within : forall addr, addr ∈ addrs (nodes.take (len / 2)) ++ addrs (nodes.drop (len / 2)) ->
            addr ∈ addrs nodes := by
          intro addr inside
          rwa [← addrs_append, List.take_append_drop] at inside
        apply ends_mergeChains leftChain rightChain
        · rw [addrs_append]
          exact both.nodup_iff.mpr distinct
        · have lengths := both.length_eq
          simp only [addrs, List.length_append, List.length_map, List.length_take, List.length_drop] at lengths
          dsimp only
          omega
        · intro head later merged rewired
          apply done head later merged
          have first : Rewired heap.blocks mid.blocks (addrs nodes) := by
            apply wired.rewired.mono
            intro addr inside
            rw [List.mem_singleton.mp inside]
            exact addr_mem member
          have second := leftRewired.mono fun addr inside => within addr (List.mem_append_left _ inside)
          have third := rightRewired.mono fun addr inside => within addr (List.mem_append_right _ inside)
          have fourth := rewired.mono fun addr inside => within addr (both.mem_iff.mp (addrs_append ▸ inside))
          exact ((first.trans second).trans third).trans fourth

/-- A chain becomes a list when its links back are repaired. -/
theorem ends_relinked (chain : Chain heap.blocks (nodeTag self) self.head nodes) (len : self.len = nodes.length)
    (real : self.al.isSome = true) (elem : self.elem.isType = true) (layout : (ckdNodeLayout self.elem).isSome = true)
    {post : TdaList -> ListMem α -> Prop}
    (done : forall (after : TdaList) (later : ListMem α), Holds later.blocks after nodes ->
      Rewired heap.blocks later.blocks (addrs nodes) -> after.elem = self.elem -> after.al = self.al ->
      post after later) :
    Ends (relinkPrev α self) heap post := by
  apply ends_relinkPrev chain len
  intro later repaired linked
  have stored : forall entry, entry ∈ nodes -> NodeAt later.blocks (nodeTag self) entry :=
    fun entry inside => repaired.node (chain.stored entry inside)
  exact done _ later ⟨real, elem, layout, stored, linked, len⟩ repaired rfl rfl

/-- The list of the sorted nodes. -/
theorem ends_sort (holds : Holds heap.blocks self nodes) {post : TdaList × C -> ListMem α -> Prop}
    (done : forall (after : TdaList) (later : ListMem α),
      Tends heap.blocks later.blocks self after nodes (sortBy (byElem cmp) nodes ctx).1 ->
      post (after, (sortBy (byElem cmp) nodes ctx).2) later) :
    Ends (sort self cmp ctx) heap post := by
  have len := holds.len
  rw [sort, ends_bind, ends_assertList holds.asserts]
  by_cases short : self.len < 2
  · rw [if_pos short, ends_pure]
    rw [sortBy_short (len ▸ short)] at done
    exact done self heap (Tends.refl holds)
  · rw [if_neg short, ends_bind]
    have some_ : nodes ≠ [] := by
      rintro rfl
      exact short (by rw [len]; exact Nat.zero_lt_two)
    apply ends_sortChain holds.chain len.symm some_
    intro head mid sorted rewired
    have perm : (sortBy (byElem cmp) nodes ctx).1.Perm nodes := sortBy_perm
    rw [ends_bind]
    apply ends_relinked
    · exact sorted
    · exact len.trans perm.length_eq.symm
    · exact holds.real
    · exact holds.elem
    · exact holds.layout
    · intro after later now repaired sameElem sameAl
      have within := repaired.mono fun addr inside => (addrs_perm perm).mem_iff.mp inside
      rw [ends_bind, ends_assertList now.asserts, ends_pure]
      exact done after later ⟨now, (rewired.trans within).evolves perm, sameElem, sameAl⟩

/-- The nodes of two lists on one allocator are merged, and the one list is empty afterwards. -/
theorem ends_mergeInto {others : List (Addr × α)} (holds : Holds heap.blocks self nodes)
    (holdsSrc : Holds heap.blocks src others) (sameElem : self.elem = src.elem) (sameAl : self.al = src.al)
    (some_ : others ≠ []) (apart : (addrs nodes).Disjoint (addrs others))
    {post : TdaList × TdaList × C -> ListMem α -> Prop}
    (done : forall (after : TdaList) (later : ListMem α),
      Holds later.blocks after (mergeBy (byElem cmp) nodes others ctx).1 ->
      Rewired heap.blocks later.blocks (addrs (nodes ++ others)) -> after.elem = self.elem -> after.al = self.al ->
      post (after, setEmpty src, (mergeBy (byElem cmp) nodes others ctx).2) later) :
    Ends (mergeInto self src cmp ctx) heap post := by
  have lenSrc := holdsSrc.len
  have someSrc : src.len > 0 := by
    rw [lenSrc]
    exact List.length_pos_of_ne_nil some_
  have tags : nodeTag src = nodeTag self := by
    rw [nodeTag, nodeTag, sameElem, sameAl]
  have chainSrc := holdsSrc.chain
  rw [tags] at chainSrc
  have distinct : (addrs (nodes ++ others)).Nodup := by
    rw [addrs_append]
    exact List.nodup_append'.mpr ⟨holds.nodup, holdsSrc.nodup, apart⟩
  have enough : nodes.length + others.length ≤ self.len + src.len := by
    rw [holds.len, lenSrc]
  rw [mergeInto, ends_bind, ends_require]
  refine ⟨sameAl, ?_⟩
  rw [ends_bind, ends_require]
  refine ⟨sameElem, ?_⟩
  rw [ends_bind, ends_require]
  refine ⟨someSrc, ?_⟩
  rw [ends_bind]
  apply ends_mergeChains holds.chain chainSrc distinct enough
  intro head mid merged rewired
  have perm : (mergeBy (byElem cmp) nodes others ctx).1.Perm (nodes ++ others) := mergeBy_perm
  rw [ends_bind]
  apply ends_relinked
  · exact merged
  · change self.len + src.len = _
    rw [perm.length_eq, List.length_append, holds.len, lenSrc]
  · exact holds.real
  · exact holds.elem
  · exact holds.layout
  · intro after later now repaired keepsElem keepsAl
    have within := repaired.mono fun addr inside => (addrs_perm perm).mem_iff.mp inside
    have empty : Holds later.blocks (setEmpty src) ([] : List (Addr × α)) :=
      Holds.empty holdsSrc.real holdsSrc.elem holdsSrc.layout rfl rfl rfl
    rw [ends_bind, ends_assertList now.asserts, ends_bind, ends_assertList empty.asserts, ends_pure]
    exact done after later now (rewired.trans within) keepsElem keepsAl

/-! ## Reversing -/

/-- Some nodes have their two links swapped, the rest has them as they were. -/
structure Turning (nodes passed rest : List (Addr × α)) (blocks now : Blocks AlTag (ListNode α)) : Prop where
  split : nodes = passed ++ rest
  rewired : Rewired blocks now (addrs nodes)
  turned : forall addr, addr ∈ addrs passed ->
    nextLink now addr = prevLink blocks addr ∧ prevLink now addr = nextLink blocks addr
  still : forall addr, addr ∈ addrs rest ->
    nextLink now addr = nextLink blocks addr ∧ prevLink now addr = prevLink blocks addr

/-- Once all nodes have their links swapped, the list goes from its tail to its head. -/
theorem Turning.holds (turning : Turning nodes nodes [] blocks now) (holds : Holds blocks self nodes) :
    Holds now { self with head := self.tail, tail := self.head } nodes.reverse := by
  have reversed : addrs nodes.reverse = (addrs nodes).reverse := List.map_reverse
  refine ⟨holds.real, holds.elem, holds.layout, ?_, ?_, ?_⟩
  · exact fun entry inside => turning.rewired.node (holds.stored entry (List.mem_reverse.mp inside))
  · rw [reversed]
    apply holds.linked.flip.congr
    exact fun addr inside => turning.turned addr (List.mem_reverse.mp inside)
  · rw [List.length_reverse]
    exact holds.len

/-- The same nodes from the back to the front. -/
theorem ends_reverse (holds : Holds heap.blocks self nodes) {post : TdaList -> ListMem α -> Prop}
    (done : forall (after : TdaList) (later : ListMem α),
      Tends heap.blocks later.blocks self after nodes nodes.reverse -> post after later) :
    Ends (reverse α self) heap post := by
  rw [reverse, ends_bind, ends_assertList holds.asserts, ends_bind]
  apply ends_loop (fun todo cur later => exists passed rest, todo = rest.length ∧ cur = (addrs rest).head? ∧
    Turning nodes passed rest heap.blocks later.blocks)
  · rintro todo cur mid ⟨passed, rest, rfl, rfl, state⟩
    cases rest with
    | nil =>
        have split := state.split
        rw [List.append_nil] at split
        subst split
        simp only [addrs_nil, List.head?_nil, ends_pure]
        have now := state.holds holds
        rw [ends_bind, ends_assertList now.asserts, ends_pure]
        exact done _ mid ⟨now, state.rewired.evolves (List.reverse_perm nodes), rfl, rfl⟩
    | cons entry rest =>
        rcases entry with ⟨node, val⟩
        have member : (node, val) ∈ nodes := by
          rw [state.split]
          exact List.mem_append_right _ List.mem_cons_self
        have at_ := state.rewired.node (holds.stored _ member)
        have whole := holds
        rw [state.split] at whole
        have distinct := whole.nodup
        rw [addrs_append, addrs_cons] at distinct
        have fresh : node ∉ addrs passed ++ addrs rest := (List.nodup_middle.mp distinct).notMem
        have here := state.still node List.mem_cons_self
        simp only [addrs_cons, List.head?_cons, ends_bind, ends_readNode at_, Heap.ends_write at_.here, ends_pure]
        have wired := Wired.of_write at_ (prevLink mid.blocks node) (nextLink mid.blocks node)
        refine ⟨rest.length, Nat.lt_succ_self _, passed ++ [(node, val)], rest, rfl, ?_, ?_⟩
        · rw [here.1]
          exact whole.next_eq
        · constructor
          · rw [state.split, List.append_assoc]
            rfl
          · apply state.rewired.trans (wired.rewired.mono _)
            intro addr inside
            rw [List.mem_singleton.mp inside]
            exact addr_mem member
          · intro addr inside
            rw [Heap.put_blocks, wired.next_eq, wired.prev_eq]
            by_cases same : addr = node
            · subst same
              rw [Function.update_self, Function.update_self]
              exact ⟨here.2, here.1⟩
            · rw [Function.update_of_ne same, Function.update_of_ne same]
              rw [addrs_append, addrs_cons, addrs_nil] at inside
              exact state.turned addr ((List.mem_append.mp inside).resolve_right fun also =>
                same (List.mem_singleton.mp also))
          · intro addr inside
            have different : addr ≠ node := by
              rintro rfl
              exact fresh (List.mem_append_right _ inside)
            rw [Heap.put_blocks, wired.next_eq, wired.prev_eq, Function.update_of_ne different,
              Function.update_of_ne different]
            exact state.still addr (List.mem_cons_of_mem _ inside)
  · refine ⟨[], nodes, rfl, holds.linked.head_eq, rfl, Rewired.refl _ _, ?_, fun _ _ => ⟨rfl, rfl⟩⟩
    exact fun _ inside => absurd inside List.not_mem_nil
  · exact Nat.lt_succ_of_le (Nat.le_of_eq holds.len.symm)

end TdaList
end TerseDsa
