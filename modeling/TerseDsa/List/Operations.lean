import TerseDsa.List.Splicing

namespace TerseDsa

open Foundation Run

/-!
# The operations on one list

`Op` is any public operation on one list, with its arguments.  Beside each
stands what it is on a plain sequence of nodes: `Op.apply` says what becomes of
the nodes, given identities for those that are made, and `Op.answer` what is
handed out.
-/

namespace TdaList

variable {α C : Type} {heap : ListMem α} {self : TdaList} {nodes left right made : List (Addr × α)} {at_ node : Addr}
  {val there : α}

/-! ## Editing a sequence of nodes -/

/-- The nodes with some put in before the one at a place, or behind all of them. -/
def putBefore (at_ : Option Addr) (made nodes : List (Addr × α)) : List (Addr × α) :=
  nodes.takeWhile (fun entry => some entry.1 ≠ at_) ++ made ++ nodes.dropWhile (fun entry => some entry.1 ≠ at_)

/-- The nodes with some put in behind the one at a place. -/
def putBehind (at_ : Addr) (made nodes : List (Addr × α)) : List (Addr × α) :=
  nodes.flatMap fun entry => if entry.1 = at_ then entry :: made else [entry]

/-- The nodes but for one of them. -/
def dropNode (node : Addr) (nodes : List (Addr × α)) : List (Addr × α) := nodes.filter fun entry => entry.1 ≠ node

/-- The nodes with one of them alone. -/
def onlyNode (node : Addr) (nodes : List (Addr × α)) : List (Addr × α) := nodes.filter fun entry => entry.1 = node

/-- The nodes with another elem in one of them. -/
def withElem (node : Addr) (val : α) (nodes : List (Addr × α)) : List (Addr × α) :=
  nodes.map fun entry => if entry.1 = node then (node, val) else entry

/-- A node is in no other place than its own. -/
theorem ne_of_distinct (distinct : (addrs (left ++ (node, val) :: right)).Nodup) {entry : Addr × α}
    (inside : entry ∈ left ∨ entry ∈ right) : entry.1 ≠ node := by
  rw [addrs_append, addrs_cons] at distinct
  have fresh := (List.nodup_middle.mp distinct).notMem
  intro same
  have member : entry.1 ∈ addrs left ++ addrs right := by
    rcases inside with before | behind
    · exact List.mem_append_left _ (addr_mem before)
    · exact List.mem_append_right _ (addr_mem behind)
  rw [same] at member
  exact fresh member

theorem putBefore_eq (distinct : (addrs (left ++ right)).Nodup) :
    putBefore (addrs right).head? made (left ++ right) = left ++ made ++ right := by
  have before : forall entry, entry ∈ left -> decide (some entry.1 ≠ (addrs right).head?) = true := by
    intro entry inside
    rw [decide_eq_true_eq]
    intro same
    rw [addrs_append] at distinct
    exact (List.nodup_append'.mp distinct).2.2 (addr_mem inside) (List.mem_of_head? same.symm)
  have behind : right.takeWhile (fun entry => decide (some entry.1 ≠ (addrs right).head?)) = [] ∧
      right.dropWhile (fun entry => decide (some entry.1 ≠ (addrs right).head?)) = right := by
    cases right with
    | nil => exact ⟨rfl, rfl⟩
    | cons entry rest => simp
  rw [putBefore, List.takeWhile_append_of_pos before, List.dropWhile_append_of_pos before, behind.1, behind.2,
    List.append_nil]

theorem putBehind_eq (distinct : (addrs (left ++ (at_, there) :: right)).Nodup) :
    putBehind at_ made (left ++ (at_, there) :: right) = left ++ (at_, there) :: (made ++ right) := by
  have alone : forall {part : List (Addr × α)}, (forall entry, entry ∈ part -> entry.1 ≠ at_) ->
      part.flatMap (fun entry => if entry.1 = at_ then entry :: made else [entry]) = part := by
    intro part others
    induction part with
    | nil => rfl
    | cons entry rest ih =>
        rw [List.flatMap_cons, if_neg (others entry List.mem_cons_self), ih fun other inside =>
          others other (List.mem_cons_of_mem entry inside)]
        rfl
  rw [putBehind, List.flatMap_append, List.flatMap_cons, if_pos rfl, alone fun _ inside => ne_of_distinct distinct (Or.inl inside),
    alone fun _ inside => ne_of_distinct distinct (Or.inr inside)]
  rfl

theorem dropNode_eq (distinct : (addrs (left ++ (node, val) :: right)).Nodup) :
    dropNode node (left ++ (node, val) :: right) = left ++ right := by
  have kept : forall {part : List (Addr × α)}, (forall entry, entry ∈ part -> entry.1 ≠ node) ->
      part.filter (fun entry => decide (entry.1 ≠ node)) = part := by
    intro part others
    exact List.filter_eq_self.mpr fun entry inside => decide_eq_true (others entry inside)
  rw [dropNode, List.filter_append, List.filter_cons, kept fun _ inside => ne_of_distinct distinct (Or.inl inside),
    kept fun _ inside => ne_of_distinct distinct (Or.inr inside)]
  simp

theorem onlyNode_eq (distinct : (addrs (left ++ (node, val) :: right)).Nodup) :
    onlyNode node (left ++ (node, val) :: right) = [(node, val)] := by
  have gone : forall {part : List (Addr × α)}, (forall entry, entry ∈ part -> entry.1 ≠ node) ->
      part.filter (fun entry => decide (entry.1 = node)) = [] := by
    intro part others
    exact List.filter_eq_nil_iff.mpr fun entry inside => by rw [decide_eq_true_eq]; exact others entry inside
  rw [onlyNode, List.filter_append, List.filter_cons, gone fun _ inside => ne_of_distinct distinct (Or.inl inside),
    gone fun _ inside => ne_of_distinct distinct (Or.inr inside)]
  simp

theorem withElem_eq (distinct : (addrs (left ++ (node, there) :: right)).Nodup) :
    withElem node val (left ++ (node, there) :: right) = left ++ (node, val) :: right := by
  have kept : forall {part : List (Addr × α)}, (forall entry, entry ∈ part -> entry.1 ≠ node) ->
      part.map (fun entry => if entry.1 = node then (node, val) else entry) = part := by
    intro part others
    exact (List.map_congr_left fun entry inside => if_neg (others entry inside)).trans (List.map_id' part)
  rw [withElem, List.map_append, List.map_cons, if_pos rfl, kept fun _ inside => ne_of_distinct distinct (Or.inl inside),
    kept fun _ inside => ne_of_distinct distinct (Or.inr inside)]

/-- Where a node of the list is. -/
theorem exists_place (inside : node ∈ addrs nodes) : exists left val right, nodes = left ++ (node, val) :: right := by
  rcases mem_addrs.mp inside with ⟨⟨_, val⟩, member, rfl⟩
  rcases List.append_of_mem member with ⟨left, right, split⟩
  exact ⟨left, val, right, split⟩

/-- Where a place to put nodes is, behind all or before a node of the list. -/
theorem exists_cut_at {place : Option Addr} (inside : forall addr, place = some addr -> addr ∈ addrs nodes) :
    exists left right, nodes = left ++ right ∧ place = (addrs right).head? := by
  cases place with
  | none => exact ⟨nodes, [], (List.append_nil _).symm, rfl⟩
  | some addr =>
      rcases exists_place (inside addr rfl) with ⟨left, val, right, split⟩
      exact ⟨left, (addr, val) :: right, split, rfl⟩

/-! ## The operations -/

/-- The public operations on one list, with their arguments; `writeElem` writes through
`tda_list_node_elem_mut`. -/
inductive Op (α C : Type) where
  | pushFront (val : α)
  | pushBack (val : α)
  | popFront
  | popBack
  | popFrontTo
  | popBackTo
  | insertBefore (at_ : Addr) (val : α)
  | insertAfter (at_ : Addr) (val : α)
  | removeNode (node : Addr)
  | retain (pred : Pred α C) (ctx : C)
  | clear
  | extend (src : SpanView α)
  | writeElem (node : Addr) (val : α)
  | reverse
  | sort (cmp : Cmp α C) (ctx : C)

/-- What an operation hands out: an elem, or the state that a callback leaves. -/
inductive Handed (α C : Type) where
  | nothing
  | elem (val : α)
  | ctx (ctx : C)

/-- The node is one of the list, as `owns_node` finds. -/
def Owns (heap : ListMem α) (list : TdaList) (node : Addr) : Prop :=
  Ends (ownsNode α list node) heap fun owned _ => owned = true

theorem Holds.owns_iff (holds : Holds heap.blocks self nodes) : Owns heap self node <-> node ∈ addrs nodes := by
  rw [Owns, ends_ownsNode holds, decide_eq_true_eq]

/-- None of these addresses is that of a block. -/
def Fresh (heap : ListMem α) (made : List Addr) : Prop := forall addr, addr ∈ made -> heap.blocks addr = none

namespace Op

/-- What the caller has to see to: a node that is given is one of the list. -/
def Allowed (heap : ListMem α) (list : TdaList) : Op α C -> Prop
  | popFront | popBack | popFrontTo | popBackTo => 0 < list.len
  | insertBefore at_ _ | insertAfter at_ _ => Owns heap list at_
  | removeNode node | writeElem node _ => Owns heap list node
  | extend src => list.elem = src.elem
  | pushFront _ | pushBack _ | retain .. | clear | reverse | sort .. => True

/-- Run it; functions without a status succeed. -/
def run : Op α C -> TdaList -> Run (ListMem α) (Status × Handed α C × TdaList)
  | pushFront val, self => do
      let (st, after) ← TdaList.pushFront self val
      return (st, .nothing, after)
  | pushBack val, self => do
      let (st, after) ← TdaList.pushBack self val
      return (st, .nothing, after)
  | popFront, self => do
      return (.ok, .nothing, ← TdaList.popFront α self)
  | popBack, self => do
      return (.ok, .nothing, ← TdaList.popBack α self)
  | popFrontTo, self => do
      let (val, after) ← TdaList.popFrontTo self
      return (.ok, .elem val, after)
  | popBackTo, self => do
      let (val, after) ← TdaList.popBackTo self
      return (.ok, .elem val, after)
  | insertBefore at_ val, self => do
      let (st, after) ← TdaList.insertBefore self at_ val
      return (st, .nothing, after)
  | insertAfter at_ val, self => do
      let (st, after) ← TdaList.insertAfter self at_ val
      return (st, .nothing, after)
  | removeNode node, self => do
      return (.ok, .nothing, ← TdaList.removeNode α self node)
  | retain pred ctx, self => do
      let (after, ctx) ← TdaList.retain self pred ctx
      return (.ok, .ctx ctx, after)
  | clear, self => do
      return (.ok, .nothing, ← TdaList.clear α self)
  | extend src, self => do
      let (st, after) ← TdaList.extend self src
      return (st, .nothing, after)
  | writeElem node val, self => do
      assertList self
      assertNode α node
      setElem node val
      return (.ok, .nothing, self)
  | reverse, self => do
      return (.ok, .nothing, ← TdaList.reverse α self)
  | sort cmp ctx, self => do
      let (after, ctx) ← TdaList.sort self cmp ctx
      return (.ok, .ctx ctx, after)

/-- How many nodes it makes. -/
def makes : Op α C -> Nat
  | pushFront _ | pushBack _ | insertBefore .. | insertAfter .. => 1
  | extend src => src.len
  | _ => 0

/-- The same operation on a sequence of nodes, where those that are made have the identities `made`. -/
def apply (made : List Addr) (nodes : List (Addr × α)) : Op α C -> List (Addr × α)
  | pushFront val => made.zip [val] ++ nodes
  | pushBack val => nodes ++ made.zip [val]
  | popFront | popFrontTo => nodes.tail
  | popBack | popBackTo => nodes.dropLast
  | insertBefore at_ val => putBefore (some at_) (made.zip [val]) nodes
  | insertAfter at_ val => putBehind at_ (made.zip [val]) nodes
  | removeNode node => dropNode node nodes
  | retain pred ctx => (sift (fun entry => pred entry.2) ctx nodes).1
  | clear => []
  | extend src => nodes ++ made.zip src.elems
  | writeElem node val => withElem node val nodes
  | reverse => nodes.reverse
  | sort cmp ctx => (sortBy (byElem cmp) nodes ctx).1

/-- What the operation hands out, on a sequence of nodes. -/
def answer (nodes : List (Addr × α)) : Op α C -> Handed α C
  | popFrontTo => ((elems nodes).head?.map .elem).getD .nothing
  | popBackTo => ((elems nodes).getLast?.map .elem).getD .nothing
  | retain pred ctx => .ctx (sift (fun entry => pred entry.2) ctx nodes).2
  | sort cmp ctx => .ctx (sortBy (byElem cmp) nodes ctx).2
  | _ => .nothing

/-- The operation did what it does on the sequence, with fresh nodes for those that it makes, or was
refused one of them and did nothing. -/
def Done (heap : ListMem α) (self : TdaList) (nodes : List (Addr × α)) (op : Op α C)
    (result : Status × Handed α C × TdaList) (later : ListMem α) : Prop :=
  (exists made after, Fresh heap made ∧ made.length = op.makes ∧ result = (.ok, op.answer nodes, after) ∧
    Tends heap.blocks later.blocks self after nodes (op.apply made nodes)) ∨
  (¬ heap.Supplies op.makes ∧ result = (.errNoMem, .nothing, self) ∧ later.blocks = heap.blocks)

namespace Done

variable {op : Op α C} {after : TdaList} {later : ListMem α} {handed : Handed α C}

theorem quiet (none_ : op.makes = 0) (handsOut : handed = op.answer nodes)
    (tends : Tends heap.blocks later.blocks self after nodes (op.apply [] nodes)) :
    Done heap self nodes op (.ok, handed, after) later := by
  subst handsOut
  exact Or.inl ⟨[], after, fun _ inside => absurd inside List.not_mem_nil, none_.symm, rfl, tends⟩

theorem one (makes : op.makes = 1) (silent : op.answer nodes = .nothing) (free : heap.blocks node = none)
    (tends : Tends heap.blocks later.blocks self after nodes (op.apply [node] nodes)) :
    Done heap self nodes op (.ok, .nothing, after) later := by
  refine Or.inl ⟨[node], after, fun addr inside => ?_, makes.symm, by rw [silent], tends⟩
  rw [List.mem_singleton.mp inside]
  exact free

theorem refused (denied : ¬ heap.Supplies op.makes) (same : later.blocks = heap.blocks) :
    Done heap self nodes op (.errNoMem, .nothing, self) later :=
  Or.inr ⟨denied, rfl, same⟩

/-- It made the nodes behind the others. -/
theorem extended {src : SpanView α} (sameElems : elems made = src.elems)
    (tends : Tends heap.blocks later.blocks self after nodes (nodes ++ made)) :
    Done heap self nodes (.extend src : Op α C) (.ok, .nothing, after) later := by
  have zipped : (addrs made).zip src.elems = made := (List.zip_of_prod rfl sameElems).symm
  have length : (addrs made).length = src.len := by
    rw [SpanView.len, ← sameElems, addrs, elems, List.length_map, List.length_map]
  refine Or.inl ⟨addrs made, after, ?_, length, rfl, ?_⟩
  · intro addr inside
    have distinct := tends.holds.nodup
    rw [addrs_append] at distinct
    apply tends.evolves.fresh
    · rw [addrs_append]
      exact List.mem_append_right _ inside
    · exact fun also => (List.nodup_append'.mp distinct).2.2 also inside
  · rw [apply, zipped]
    exact tends

end Done

theorem front_of_len (holds : Holds heap.blocks self nodes) (some_ : 0 < self.len) :
    exists node val rest, nodes = (node, val) :: rest := by
  cases nodes with
  | nil => exact absurd holds.len (Nat.ne_of_gt some_)
  | cons entry rest => exact ⟨entry.1, entry.2, rest, rfl⟩

theorem back_of_len (holds : Holds heap.blocks self nodes) (some_ : 0 < self.len) :
    exists rest node val, nodes = rest ++ [(node, val)] := by
  have len := holds.len
  rcases List.eq_nil_or_concat nodes with none_ | ⟨rest, last, split⟩
  · rw [none_] at len
    exact absurd len (Nat.ne_of_gt some_)
  · exact ⟨rest, last.1, last.2, split.trans List.concat_eq_append⟩

/-- Where a node is put in before or behind another, it is refused or made there. -/
theorem ends_run_insert (holds : Holds heap.blocks self nodes) (inside : at_ ∈ addrs nodes) (op : Op α C)
    (which : op = .insertBefore at_ val ∨ op = .insertAfter at_ val) :
    Ends (op.run self) heap (Done heap self nodes op) := by
  rcases exists_place inside with ⟨left, there, right, rfl⟩
  rcases which with rfl | rfl
  · simp only [run, ends_bind]
    apply ends_insertBefore holds
    · exact fun denied later same => (ends_pure _ _ _).mpr (Done.refused denied same)
    · intro after later node free _ tends
      rw [ends_pure]
      apply Done.one rfl rfl free
      have put : apply [node] (left ++ (at_, there) :: right) (.insertBefore at_ val : Op α C) =
          left ++ (node, val) :: (at_, there) :: right :=
        (putBefore_eq holds.nodup).trans (List.append_assoc left [(node, val)] _)
      rw [put]
      exact tends
  · simp only [run, ends_bind]
    apply ends_insertAfter holds
    · exact fun denied later same => (ends_pure _ _ _).mpr (Done.refused denied same)
    · intro after later node free _ tends
      rw [ends_pure]
      apply Done.one rfl rfl free
      have put : apply [node] (left ++ (at_, there) :: right) (.insertAfter at_ val : Op α C) =
          left ++ (at_, there) :: (node, val) :: right := putBehind_eq holds.nodup
      rw [put]
      exact tends

/-- Where the last node goes, its elem may be handed out. -/
theorem ends_run_popBack (holds : Holds heap.blocks self nodes) (some_ : 0 < self.len) (op : Op α C)
    (which : op = .popBack ∨ op = .popBackTo) : Ends (op.run self) heap (Done heap self nodes op) := by
  rcases back_of_len holds some_ with ⟨rest, node, val, rfl⟩
  rcases which with rfl | rfl
  · simp only [run, ends_bind]
    apply ends_popBack holds
    intro after later tends
    rw [ends_pure]
    apply Done.quiet rfl rfl
    rw [apply, List.dropLast_concat]
    exact tends
  · simp only [run, ends_bind]
    apply ends_popBackTo holds
    intro after later tends
    rw [ends_pure]
    apply Done.quiet rfl
    · rw [answer, elems, List.map_append, List.map_singleton, List.getLast?_concat]
      rfl
    · rw [apply, List.dropLast_concat]
      exact tends

theorem ends_run (op : Op α C) (holds : Holds heap.blocks self nodes) (allowed : op.Allowed heap self) :
    Ends (op.run self) heap (Done heap self nodes op) := by
  cases op with
  | pushFront val =>
      simp only [run, ends_bind]
      apply ends_pushFront holds
      · exact fun denied later same => (ends_pure _ _ _).mpr (Done.refused denied same)
      · exact fun after later node free _ tends => (ends_pure _ _ _).mpr (Done.one rfl rfl free tends)
  | pushBack val =>
      simp only [run, ends_bind]
      apply ends_pushBack holds
      · exact fun denied later same => (ends_pure _ _ _).mpr (Done.refused denied same)
      · exact fun after later node free _ tends => (ends_pure _ _ _).mpr (Done.one rfl rfl free tends)
  | popFront =>
      rcases front_of_len holds allowed with ⟨node, val, rest, rfl⟩
      simp only [run, ends_bind]
      apply ends_popFront holds
      exact fun after later tends => (ends_pure _ _ _).mpr (Done.quiet rfl rfl tends)
  | popBack => exact ends_run_popBack holds allowed _ (Or.inl rfl)
  | popFrontTo =>
      rcases front_of_len holds allowed with ⟨node, val, rest, rfl⟩
      simp only [run, ends_bind]
      apply ends_popFrontTo holds
      exact fun after later tends => (ends_pure _ _ _).mpr (Done.quiet rfl rfl tends)
  | popBackTo => exact ends_run_popBack holds allowed _ (Or.inr rfl)
  | insertBefore at_ val => exact ends_run_insert holds (holds.owns_iff.mp allowed) _ (Or.inl rfl)
  | insertAfter at_ val => exact ends_run_insert holds (holds.owns_iff.mp allowed) _ (Or.inr rfl)
  | removeNode node =>
      rcases exists_place (holds.owns_iff.mp allowed) with ⟨left, val, right, rfl⟩
      simp only [run, ends_bind]
      apply ends_removeNode holds
      intro after later tends
      rw [ends_pure]
      apply Done.quiet rfl rfl
      rw [apply, dropNode_eq holds.nodup]
      exact tends
  | retain pred ctx =>
      simp only [run, ends_bind]
      apply ends_retain_nodes holds
      exact fun after later tends => (ends_pure _ _ _).mpr (Done.quiet rfl rfl tends)
  | clear =>
      simp only [run, ends_bind]
      apply ends_clear holds
      exact fun later tends => (ends_pure _ _ _).mpr (Done.quiet rfl rfl tends)
  | extend src =>
      simp only [run, ends_bind]
      apply ends_extend holds allowed
      · exact fun denied later same => (ends_pure _ _ _).mpr (Done.refused denied same)
      · exact fun after later made sameElems tends => (ends_pure _ _ _).mpr (Done.extended sameElems tends)
  | writeElem node val =>
      have inside := holds.owns_iff.mp allowed
      rcases exists_place inside with ⟨left, there, right, rfl⟩
      simp only [run, ends_bind, ends_assertList holds.asserts, ends_assertNode holds inside]
      apply ends_setElem holds
      intro later tends
      rw [ends_pure]
      apply Done.quiet rfl rfl
      rw [apply, withElem_eq holds.nodup]
      exact tends
  | reverse =>
      simp only [run, ends_bind]
      apply ends_reverse holds
      exact fun after later tends => (ends_pure _ _ _).mpr (Done.quiet rfl rfl tends)
  | sort cmp ctx =>
      simp only [run, ends_bind]
      apply ends_sort holds
      exact fun after later tends => (ends_pure _ _ _).mpr (Done.quiet rfl rfl tends)

end Op

end TdaList
end TerseDsa
