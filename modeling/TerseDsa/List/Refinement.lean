import TerseDsa.List.Carrying

namespace TerseDsa

open Foundation Run
open Function (update update_comm update_idem update_self update_of_ne update_eq_self)

/-!
# Lists refine sequences of nodes

In every state that a program of list calls comes to, each list is linked both
ways through the nodes of one sequence, no node is in two lists, and a call
does to the sequences what it says.  Each node is a block under the allocator
and the node layout of the list that it is in, so that it goes back to where it
came from; and where a call has to copy, since there are two allocators, it
does to the elems what it does on one.
-/

namespace TdaList

open Objects ListObjects

variable {α C : Type} {s later : ListObjects α} {abs : Nat -> List (Addr × α)} {self src other out : Nat}

/-! ## Every call -/

namespace Invariant

theorem ends_init (invariant : Invariant s abs) {elem : Layout} {al : Al}
    (allowed : (Call.init out elem al : Call α C).Allowed s) :
    Ends (Call.init out elem al : Call α C).run s ((Call.init out elem al).Done s abs) := by
  rcases allowed with ⟨bare, storable, real⟩
  simp only [Call.run, ends_bind, ends_within, TdaList.ends_init storable real, ends_store, ends_pure]
  exact quiet rfl rfl (invariant.born bare (born_bare storable real))

theorem ends_deinit (invariant : Invariant s abs) (self : Nat) :
    Ends (Call.deinit self : Call α C).run s ((Call.deinit self).Done s abs) := by
  simp only [Call.run, ends_bind, ends_load, ends_within]
  apply invariant.deinitialised self
  intro mid now
  simp only [ends_store, ends_pure]
  exact quiet rfl rfl now

theorem ends_op (invariant : Invariant s abs) (self : Nat) (task : Op α C) (allowed : (Call.op self task).Allowed s) :
    Ends (Call.op self task).run s ((Call.op self task).Done s abs) := by
  simp only [Call.run, ends_bind, ends_load, ends_within]
  apply (task.ends_run (invariant.holds allowed.1) allowed.2).mono
  rintro result mem (⟨made, after, fresh, length, rfl, tends⟩ | ⟨denied, rfl, same⟩)
  · simp only [ends_store, ends_pure]
    exact Or.inl ⟨made, fresh, length, rfl, invariant.tended tends⟩
  · simp only [ends_store, ends_pure]
    exact Or.inr ⟨denied, rfl, update_eq_self self s.objs, same⟩

/-- Every call ends, whatever the allocators answer, and does what it does on sequences, or is refused a node
and does nothing. -/
theorem run (invariant : Invariant s abs) (call : Call α C) (allowed : call.Allowed s) :
    Ends call.run s (call.Done s abs) := by
  cases call with
  | init out elem al => exact invariant.ends_init allowed
  | make out maker => exact invariant.ends_make out maker allowed.1 allowed.2
  | deinit self => exact invariant.ends_deinit self
  | copyAssign self other => exact invariant.ends_copyAssign self other allowed
  | moveAssign self other => exact invariant.ends_moveAssign self other allowed
  | swap self other => exact invariant.ends_swap self other allowed
  | splice self src front => exact invariant.ends_splice self src front allowed
  | spliceNode self at_ src node => exact invariant.ends_spliceNode self at_ src node allowed
  | merge self src cmp ctx => exact invariant.ends_merge self src cmp ctx allowed
  | op self task => exact invariant.ends_op self task allowed

end Invariant

theorem Reachable.invariant (reachable : Reachable C s) : exists abs, Invariant s abs := by
  induction reachable with
  | start answers => exact ⟨_, Objects.Invariant.start inert (Or.inl ⟨rfl, rfl⟩) rfl answers⟩
  | call before call allowed ran ih =>
      rcases ih with ⟨abs, invariant⟩
      rcases (invariant.run call allowed).of_eq ran with ⟨made, _, _, _, now⟩ | ⟨_, _, sameObjs, same⟩
      · exact ⟨_, now⟩
      · exact ⟨abs, Objects.Invariant.unchanged invariant sameObjs same⟩

/-! ## Sequences -/

/-- How a list stands for a sequence of nodes: both walks pass the nodes, once each, and end at the other end. -/
structure Represents (heap : ListMem α) (list : TdaList) (nodes : List (Addr × α)) : Prop where
  len : list.len = nodes.length
  distinct : (addrs nodes).Nodup
  forth : Seg (nextLink heap.blocks) list.head (addrs nodes) none
  back : Seg (prevLink heap.blocks) list.tail (addrs nodes).reverse none
  first : list.head = (addrs nodes).head? ∧ forall node, list.head = some node -> prevLink heap.blocks node = none
  last : list.tail = (addrs nodes).getLast? ∧ forall node, list.tail = some node -> nextLink heap.blocks node = none
  elem : forall entry, entry ∈ nodes -> Ends (readNode entry.1) heap fun cell later =>
    cell.elem = entry.2 ∧ later = heap

theorem Holds.represents {heap : ListMem α} {list : TdaList} {nodes : List (Addr × α)}
    (holds : Holds heap.blocks list nodes) : Represents heap list nodes where
  len := holds.len
  distinct := holds.nodup
  forth := holds.linked.fwd
  back := holds.linked.bwd
  first := by
    refine ⟨holds.linked.head_eq, fun node same => ?_⟩
    rw [holds.linked.head_eq] at same
    cases nodes with
    | nil => cases same
    | cons entry rest =>
        cases same
        have shown : Holds heap.blocks list ([] ++ (entry.1, entry.2) :: rest) := holds
        exact shown.prev_eq
  last := by
    refine ⟨holds.linked.tail_eq, fun node same => ?_⟩
    rw [holds.linked.tail_eq] at same
    rcases List.eq_nil_or_concat nodes with rfl | ⟨rest, entry, rfl⟩
    · cases same
    · rw [List.concat_eq_append] at holds same
      rw [addrs_append, addrs_cons, addrs_nil, List.getLast?_concat] at same
      cases same
      have shown : Holds heap.blocks list (rest ++ (entry.1, entry.2) :: []) := holds
      exact shown.next_eq
  elem := by
    rintro ⟨node, val⟩ inside
    rw [ends_readNode (holds.stored _ inside)]
    exact ⟨rfl, rfl⟩

theorem Represents.unique {heap : ListMem α} {list : TdaList} {nodes others : List (Addr × α)}
    (one : Represents heap list nodes) (two : Represents heap list others) : nodes = others := by
  have sameAddrs : addrs nodes = addrs others := one.forth.unique two.forth
  -- the elem of a node is in memory
  have sameElem : forall entry twin, entry ∈ nodes -> twin ∈ others -> entry.1 = twin.1 -> entry = twin := by
    rintro ⟨node, val⟩ ⟨_, given⟩ inside also rfl
    rcases one.elem _ inside with ⟨cell, _, ran, rfl, _⟩
    exact Prod.ext rfl ((two.elem _ also).of_eq ran).1
  have lengths : nodes.length = others.length := one.len.symm.trans two.len
  apply List.ext_getElem lengths
  intro i first second
  apply sameElem _ _ (List.getElem_mem first) (List.getElem_mem second)
  have at_ : (addrs nodes)[i]? = (addrs others)[i]? := by rw [sameAddrs]
  rw [addrs, addrs, List.getElem?_map, List.getElem?_map, List.getElem?_eq_getElem first,
    List.getElem?_eq_getElem second] at at_
  exact Option.some_inj.mp at_

/-- Every list stands for its sequence, and no node is in two lists. -/
structure Sequenced (s : ListObjects α) (abs : Nat -> List (Addr × α)) : Prop where
  represents : forall var, (s.objs var).al.isSome = true -> Represents s.mem (s.objs var) (abs var)
  idle : forall var, (s.objs var).al.isSome = false -> abs var = []
  apart : forall var other, var ≠ other -> (addrs (abs var)).Disjoint (addrs (abs other))

theorem Sequenced.unique {others : Nat -> List (Addr × α)} (one : Sequenced s abs) (two : Sequenced s others) :
    abs = others := by
  funext var
  cases real : (s.objs var).al.isSome with
  | true => exact (one.represents var real).unique (two.represents var real)
  | false => rw [one.idle var real, two.idle var real]

theorem Invariant.sequenced (invariant : Invariant s abs) : Sequenced s abs where
  represents _ real := (invariant.holds real).represents
  idle var unreal := by
    rcases invariant.held var with ⟨_, none_⟩ | holds
    · exact none_
    · exact absurd holds.real (ne_true_of_eq_false unreal)
  apart _ _ different := invariant.apart different

/-! ## Nodes that stay what they are -/

/-- The calls that only bend links: nodes keep their identities and their elems. -/
def Call.Bends (s : ListObjects α) : Call α C -> Prop
  | splice self src _ | spliceNode self _ src _ | merge self src _ _ => (s.objs self).al = (s.objs src).al
  | swap .. | op _ .reverse | op _ (.sort ..) => True
  | _ => False

theorem Call.Bends.makes_eq {call : Call α C} (bends : call.Bends s) : call.makes (call.relinks s) abs = 0 := by
  cases call with
  | swap self other => rfl
  | splice self src front | merge self src cmp ctx | spliceNode self at_ src node =>
      have one : (s.objs self).al = (s.objs src).al := bends
      simp only [makes, relinks, one, decide_true, if_true]
  | op self task =>
      cases task with
      | reverse | sort cmp ctx => rfl
      | _ => exact absurd bends id
  | _ => exact absurd bends id

section Kept

variable {nodes changed rest : List (Addr × α)} {entry : Addr × α} {node : Addr} {at_ : Option Addr}

/-- One list has its nodes in another order. -/
theorem kept_update (perm : changed.Perm (abs self)) :
    (exists var, entry ∈ update abs self changed var) <-> exists var, entry ∈ abs var := by
  apply exists_congr
  intro var
  by_cases here : var = self
  · rw [here, update_self]
    exact perm.mem_iff
  · rw [update_of_ne here]

/-- Two lists have their nodes in another order, and divided in another way. -/
theorem kept_update_pair (different : self ≠ src) (perm : (changed ++ rest).Perm (abs self ++ abs src)) :
    (exists var, entry ∈ update (update abs self changed) src rest var) <->
      exists var, entry ∈ abs var := by
  have both : entry ∈ changed ∨ entry ∈ rest <-> entry ∈ abs self ∨ entry ∈ abs src := by
    rw [← List.mem_append, ← List.mem_append]
    exact perm.mem_iff
  have atSelf : update (update abs self changed) src rest self = changed :=
    (update_of_ne different _ _).trans (update_self _ _ _)
  have atSrc : update (update abs self changed) src rest src = rest := update_self _ _ _
  have elsewhere : forall var, var ≠ self -> var ≠ src ->
      update (update abs self changed) src rest var = abs var := fun var first second =>
    (update_of_ne second _ _).trans (update_of_ne first _ _)
  constructor
  · rintro ⟨var, inside⟩
    by_cases second : var = src
    · rw [second, atSrc] at inside
      exact (both.mp (Or.inr inside)).elim (fun mine => ⟨self, mine⟩) fun mine => ⟨src, mine⟩
    · by_cases first : var = self
      · rw [first, atSelf] at inside
        exact (both.mp (Or.inl inside)).elim (fun mine => ⟨self, mine⟩) fun mine => ⟨src, mine⟩
      · rw [elsewhere var first second] at inside
        exact ⟨var, inside⟩
  · rintro ⟨var, inside⟩
    have moved : entry ∈ abs self ∨ entry ∈ abs src ->
        exists var, entry ∈ update (update abs self changed) src rest var := by
      intro mine
      rcases both.mpr mine with first | second
      · exact ⟨self, by rwa [atSelf]⟩
      · exact ⟨src, by rwa [atSrc]⟩
    by_cases second : var = src
    · exact moved (Or.inr (second ▸ inside))
    · by_cases first : var = self
      · exact moved (Or.inl (first ▸ inside))
      · exact ⟨var, by rwa [elsewhere var first second]⟩

theorem putBefore_perm (at_ : Option Addr) (made nodes : List (Addr × α)) : (putBefore at_ made nodes).Perm (made ++ nodes) := by
  rw [putBefore, List.append_assoc]
  refine (List.perm_append_comm_assoc _ _ _).trans ?_
  rw [List.takeWhile_append_dropWhile]

theorem onlyNode_dropNode_perm (node : Addr) (nodes : List (Addr × α)) :
    (onlyNode node nodes ++ dropNode node nodes).Perm nodes := by
  have parts := List.filter_append_perm (fun entry : Addr × α => decide (entry.1 = node)) nodes
  have others : nodes.filter (fun entry => !decide (entry.1 = node)) = dropNode node nodes := by
    rw [dropNode]
    exact List.filter_congr fun entry _ => (decide_not).symm
  rwa [others] at parts

theorem Call.Bends.kept {call : Call α C} {made : List Addr} (bends : call.Bends s) (allowed : call.Allowed s)
    (entry : Addr × α) :
    (exists var, entry ∈ call.apply (call.relinks s) made abs var) <-> exists var, entry ∈ abs var := by
  cases call with
  | swap self other =>
      constructor
      · exact fun ⟨var, inside⟩ => ⟨_, inside⟩
      · rintro ⟨var, inside⟩
        refine ⟨Equiv.swap self other var, ?_⟩
        change entry ∈ abs (Equiv.swap self other (Equiv.swap self other var))
        rwa [Equiv.swap_apply_self]
  | splice self src front =>
      have one : (Call.splice self src front : Call α C).relinks s = true := decide_eq_true bends
      rw [one]
      apply kept_update_pair allowed.2.2.2
      rw [List.append_nil]
      exact joined_perm front (abs src) (abs self)
  | merge self src cmp ctx =>
      have one : (Call.merge self src cmp ctx).relinks s = true := decide_eq_true bends
      rw [one]
      apply kept_update_pair allowed.2.2.2
      rw [List.append_nil]
      exact mergeBy_perm
  | spliceNode self at_ src node =>
      have one : (Call.spliceNode self at_ src node : Call α C).relinks s = true := decide_eq_true bends
      have parts := onlyNode_dropNode_perm node (abs src)
      rw [one, Call.apply]
      by_cases same : self = src
      · subst same
        rw [update_self, update_idem]
        exact kept_update ((putBefore_perm at_ (onlyNode node (abs self)) _).trans parts)
      · rw [update_of_ne same, update_comm (Ne.symm same)]
        apply kept_update_pair same
        have moved := putBefore_perm at_ (onlyNode node (abs src)) (abs self)
        refine (moved.append_right _).trans ?_
        rw [List.append_assoc]
        refine (List.perm_append_comm_assoc _ _ _).trans ?_
        exact parts.append_left (abs self)
  | op self task =>
      cases task with
      | reverse => exact kept_update (List.reverse_perm (abs self))
      | sort cmp ctx => exact kept_update sortBy_perm
      | _ => exact absurd bends id
  | _ => exact absurd bends id

end Kept

/-! ## Refinement -/

/-- In every state that is reached, the lists are well-formed and stand for one sequence of nodes each; a call
that is allowed ends, and has done to the sequences what it says, with nodes that were not there for those that
it makes, or, if it makes any and not all of them are granted, leaves all as it was; and where it only bends
links, it is never refused, and the nodes are the same, each with its elem. -/
theorem Reachable.linked_sequences (reachable : Reachable C s) : exists abs, Sequenced s abs ∧
    (forall others, Sequenced s others -> abs = others) ∧
    forall call : Call α C, call.Allowed s -> Ends call.run s fun result later => Reachable C later ∧
      ((exists made, Fresh s.mem made ∧ made.length = call.makes (call.relinks s) abs ∧
          result = (.ok, call.answer (call.relinks s) made abs) ∧
          Sequenced later (call.apply (call.relinks s) made abs) ∧
          (call.Bends s -> forall entry,
            (exists var, entry ∈ call.apply (call.relinks s) made abs var) <-> exists var, entry ∈ abs var)) ∨
        (0 < call.makes (call.relinks s) abs ∧ ¬ s.mem.Supplies (call.makes (call.relinks s) abs) ∧
          ¬ call.Bends s ∧ result.1 = .errNoMem ∧ later.objs = s.objs ∧ later.mem.blocks = s.mem.blocks)) := by
  rcases reachable.invariant with ⟨abs, invariant⟩
  refine ⟨abs, invariant.sequenced, fun others also => invariant.sequenced.unique also, fun call allowed => ?_⟩
  rcases invariant.run call allowed with ⟨result, later, ran, outcome⟩
  refine ⟨result, later, ran, reachable.call call allowed ran, ?_⟩
  rcases outcome with ⟨made, fresh, length, same, now⟩ | ⟨denied, refused⟩
  · exact Or.inl ⟨made, fresh, length, same, now.sequenced, fun bends entry => bends.kept allowed entry⟩
  · refine Or.inr ⟨Nat.pos_of_ne_zero fun nothing => denied ?_, denied, fun bends => denied ?_, refused⟩
    · rw [nothing]
      exact Heap.Supplies.zero s.mem
    · rw [bends.makes_eq]
      exact Heap.Supplies.zero s.mem

/-! ## Two lists on two allocators -/

/-- The state after a call, if it ended. -/
def Call.after (call : Call Nat Unit) (s : ListObjects Nat) : ListObjects Nat :=
  ((call.run s).map Prod.snd).getD s

/-- A list of 1, 2 on one allocator, and a list of 3 on another. -/
def paired : ListObjects Nat :=
  (Call.make 1 (.fromData [3] ⟨4, 4⟩ (some 1))).after ((Call.make 0 (.fromData [1, 2] ⟨4, 4⟩ (some 0))).after
    ⟨fun _ => inert, ⟨fun _ => none, some, 0⟩⟩)

theorem paired_reachable : Reachable Unit paired := by
  have first := (Reachable.start some : Reachable Unit _).call (.make 0 (.fromData [1, 2] ⟨4, 4⟩ (some 0)))
    ⟨rfl, ⟨by decide, by decide⟩, rfl⟩ rfl
  exact first.call (.make 1 (.fromData [3] ⟨4, 4⟩ (some 1))) ⟨rfl, ⟨by decide, by decide⟩, rfl⟩ rfl

/-- The first node goes to the end of its own list. -/
theorem Reachable.linked_sequences_paired : exists abs, Sequenced paired abs ∧
    Ends (Call.spliceNode 0 none 0 0 : Call Nat Unit).run paired fun result later => result = (.ok, .nothing) ∧
      Sequenced later ((Call.spliceNode 0 none 0 0 : Call Nat Unit).apply true [] abs) := by
  rcases Reachable.linked_sequences paired_reachable with ⟨abs, sequenced, _, calls⟩
  refine ⟨abs, sequenced, (calls (.spliceNode 0 none 0 0) ?_).mono ?_⟩
  · exact ⟨rfl, rfl, rfl, by decide, (fun _ none_ => nomatch none_), ⟨true, _, rfl, rfl⟩⟩
  · rintro result later ⟨_, ⟨made, _, length, same, now, _⟩ | ⟨some_, _⟩⟩
    · have nothing : made = [] := List.eq_nil_of_length_eq_zero length
      subst nothing
      exact ⟨same, now⟩
    · exact absurd some_ (Nat.lt_irrefl 0)

/-! ## Nodes go home -/

/-- The calls that carry nodes from one list to another. -/
def Call.Carries : Call α C -> Prop
  | splice .. | spliceNode .. | merge .. => True
  | _ => False

section Carried

variable {relink : Bool} {made : List Addr} {nodes : List (Addr × α)} {node : Addr}

/-- Whether nodes were carried over or made anew, the elems are those of the other list. -/
theorem elems_carried (length : made.length = if relink then 0 else nodes.length) :
    elems (Call.carried relink made nodes) = elems nodes := by
  cases relink with
  | true => rfl
  | false =>
      have enough : (elems nodes).length ≤ made.length := by
        rw [elems, List.length_map]
        exact Nat.le_of_eq length.symm
      exact List.map_snd_zip enough

theorem elems_update (abs : Nat -> List (Addr × α)) (self : Nat) (nodes : List (Addr × α)) :
    elems ∘ update abs self nodes = update (elems ∘ abs) self (elems nodes) :=
  Function.comp_update elems abs self nodes

theorem elems_joined {moved others : List (Addr × α)} (front : Bool) (same : elems moved = elems others) :
    elems (joined front moved nodes) = elems (joined front others nodes) := by
  cases front with
  | true => exact (List.map_append).trans ((congrArg (· ++ elems nodes) same).trans (List.map_append).symm)
  | false => exact (List.map_append).trans ((congrArg (elems nodes ++ ·) same).trans (List.map_append).symm)

theorem elems_putBefore {moved others : List (Addr × α)} (at_ : Option Addr) (same : elems moved = elems others) :
    elems (putBefore at_ moved nodes) = elems (putBefore at_ others nodes) := by
  simp only [elems] at same
  simp only [elems, putBefore, List.map_append, same]

/-- Merging asks about elems alone. -/
theorem elems_mergeBy_congr {moved others : List (Addr × α)} {cmp : Cmp α C} {ctx : C}
    (same : elems moved = elems others) :
    elems (mergeBy (byElem cmp) nodes moved ctx).1 = elems (mergeBy (byElem cmp) nodes others ctx).1 ∧
      (mergeBy (byElem cmp) nodes moved ctx).2 = (mergeBy (byElem cmp) nodes others ctx).2 := by
  have onMoved : mergeBy (rightGoesFirst cmp) (elems nodes) (elems moved) ctx = _ := elems_mergeBy
  have onOthers : mergeBy (rightGoesFirst cmp) (elems nodes) (elems others) ctx = _ := elems_mergeBy
  rw [same, onOthers] at onMoved
  exact ⟨(congrArg Prod.fst onMoved).symm, (congrArg Prod.snd onMoved).symm⟩

theorem onlyNode_length (distinct : (addrs nodes).Nodup) (inside : node ∈ addrs nodes) :
    (onlyNode node nodes).length = 1 := by
  rcases exists_place inside with ⟨left, val, right, rfl⟩
  rw [onlyNode_eq distinct]
  rfl

/-- A call that carries nodes does to the elems, and answers, what it does where the nodes themselves go over. -/
theorem Call.Carries.elems_eq {call : Call α C} (carries : call.Carries) (invariant : Invariant s abs)
    (allowed : call.Allowed s) (length : made.length = call.makes relink abs) :
    elems ∘ call.apply relink made abs = elems ∘ call.apply true [] abs ∧
      call.answer relink made abs = call.answer true [] abs := by
  cases call with
  | splice self src front =>
      have same : elems (Call.carried relink made (abs src)) = elems (abs src) := elems_carried length
      refine ⟨?_, rfl⟩
      simp only [Call.apply, elems_update, elems_joined front same]
      rfl
  | merge self src cmp ctx =>
      have same : elems (Call.carried relink made (abs src)) = elems (abs src) := elems_carried length
      constructor
      · simp only [Call.apply, elems_update, (elems_mergeBy_congr same).1]
        rfl
      · exact congrArg Handed.ctx (elems_mergeBy_congr same).2
  | spliceNode self at_ src node =>
      rcases allowed with ⟨_, realSrc, _, _, _, owned⟩
      have holds := invariant.holds realSrc
      have single := onlyNode_length holds.nodup (holds.owns_iff.mp owned)
      have same : elems (Call.carried relink made (onlyNode node (abs src))) = elems (onlyNode node (abs src)) := by
        apply elems_carried
        rw [single]
        exact length
      refine ⟨?_, rfl⟩
      simp only [Call.apply, elems_update, elems_putBefore at_ same]
      rfl
  | _ => exact absurd carries id

end Carried

/-- Every node is a block under the allocator of the list that it is in now and under the layout of that list's
nodes. -/
theorem Invariant.at_home (invariant : Invariant s abs) {var : Nat} {entry : Addr × α} (inside : entry ∈ abs var) :
    exists layout block, ckdNodeLayout (s.objs var).elem = some layout ∧ s.mem.blocks entry.1 = some block ∧
      block.tag = ((s.objs var).al, layout) := by
  rcases invariant.held var with ⟨_, none_⟩ | holds
  · rw [none_] at inside
    exact absurd inside List.not_mem_nil
  · rcases Option.isSome_iff_exists.mp holds.layout with ⟨layout, found⟩
    refine ⟨layout, _, found, (holds.stored entry inside).here, ?_⟩
    rw [nodeTag, found]
    rfl

/-- In every state that is reached, every node is a block under the allocator and the layout of the list that it
is in, and every live block is such a node, so that nothing is live when every list is deinitialised.  Every call
that is allowed ends, and so does a deinitialisation: since a release goes wrong unless its block is live and
under the same allocator and layout, none is given back twice or elsewhere.  A call that carries nodes does to the
elems what it does on one allocator, or is refused a node and leaves all as it was. -/
theorem Reachable.nodes_go_home (reachable : Reachable C s) : exists abs, Sequenced s abs ∧
    (forall var entry, entry ∈ abs var ->
      exists layout block, ckdNodeLayout (s.objs var).elem = some layout ∧ s.mem.blocks entry.1 = some block ∧
        block.tag = ((s.objs var).al, layout)) ∧
    (forall addr, s.mem.blocks addr ≠ none -> exists var, addr ∈ addrs (abs var)) ∧
    ((forall var, (s.objs var).al = none) -> forall addr, s.mem.blocks addr = none) ∧
    (forall var, Ends (Call.deinit var : Call α C).run s fun _ later =>
      Reachable C later ∧ later.objs = update s.objs var inert) ∧
    (forall call : Call α C, call.Allowed s -> Ends call.run s fun _ later => Reachable C later) ∧
    forall call : Call α C, call.Carries -> call.Allowed s -> Ends call.run s fun result later =>
      (result = (.ok, call.answer true [] abs) ∧
        exists after, Sequenced later after ∧ elems ∘ after = elems ∘ call.apply true [] abs) ∨
      (¬ s.mem.Supplies (call.makes (call.relinks s) abs) ∧ result.1 = .errNoMem ∧ later.objs = s.objs ∧
        later.mem.blocks = s.mem.blocks) := by
  rcases reachable.invariant with ⟨abs, invariant⟩
  refine ⟨abs, invariant.sequenced, fun _ _ inside => invariant.at_home inside, ?_, ?_, ?_, ?_, ?_⟩
  · exact fun addr live => invariant.division.covered addr live
  · intro idle
    apply invariant.division.nothing_live
    intro var
    have nothing : abs var = [] := invariant.sequenced.idle var (by rw [idle var]; rfl)
    exact congrArg addrs nothing
  · intro var
    have ends : Ends (Call.deinit var : Call α C).run s fun _ later =>
        later.objs = update s.objs var inert := by
      simp only [Call.run, ends_bind, ends_load, ends_within]
      apply invariant.deinitialised var
      intro later _
      simp only [ends_store, ends_pure]
    rcases ends with ⟨result, later, ran, now⟩
    exact ⟨result, later, ran, reachable.call (Call.deinit var) trivial ran, now⟩
  · intro call allowed
    rcases invariant.run call allowed with ⟨result, later, ran, _⟩
    exact ⟨result, later, ran, reachable.call call allowed ran⟩
  · intro call carries allowed
    apply (invariant.run call allowed).mono
    rintro result later (⟨made, _, length, same, now⟩ | refused)
    · have alike := carries.elems_eq invariant allowed length
      rw [same, alike.2]
      exact Or.inl ⟨rfl, _, now.sequenced, alike.1⟩
    · exact Or.inr refused

/-- The one list is spliced to the end of the other. -/
theorem Reachable.nodes_go_home_paired : exists abs, Sequenced paired abs ∧
    Ends (Call.splice 0 1 false : Call Nat Unit).run paired fun result later => result = (.ok, .nothing) ∧
      exists after, Sequenced later after ∧
        elems ∘ after = elems ∘ (Call.splice 0 1 false : Call Nat Unit).apply true [] abs := by
  rcases Reachable.nodes_go_home paired_reachable with ⟨abs, sequenced, _, _, _, _, _, carried⟩
  have status : ((Call.splice 0 1 false : Call Nat Unit).run paired).map (fun out => out.1.1) = some .ok := rfl
  rcases Option.map_eq_some_iff.mp status with ⟨⟨result, later⟩, ran, ok⟩
  refine ⟨abs, sequenced, result, later, ran, ?_⟩
  rcases (carried (.splice 0 1 false) trivial ⟨rfl, rfl, rfl, by decide⟩).of_eq ran with done | ⟨_, refused, _⟩
  · exact done
  · exact nomatch ok.symm.trans refused

end TdaList
end TerseDsa
