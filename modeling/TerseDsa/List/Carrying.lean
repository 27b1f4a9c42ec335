import TerseDsa.List.Objects

namespace TerseDsa

open Foundation Run
open Function (update update_comm update_idem update_self update_of_ne update_eq_self)

/-!
# Carrying one node

`tda_list_splice_node` between two lists on one allocator, between two lists on
two allocators, and within one list, where the neighbour of the place is read
only after the node is out.
-/

namespace ListObjects

open Objects TdaList

/-- The rest of `tda_list_splice_node` on two allocators: the elem goes into a new node, and the old one is
given back. -/
def carryAcross (α : Type) (self : Nat) (at_ : Option Addr) (src : Nat) (node : Addr) (a : TdaList) :
    Run (ListObjects α) Status := do
  let prev ← within (prevOf α a at_)
  let cell ← within (readNode (α := α) node)
  let (st, after) ← within (insertBetween a prev at_ cell.elem)
  store self after
  if st ≠ .ok then
    return st
  let b ← load src
  store src (← within (removeNodeImpl α b node))
  within (assertList (← load self))
  within (assertList (← load src))
  return .ok

/-- The rest of it on one allocator: the node itself is taken out and linked in. -/
def carryWithin (α : Type) (self : Nat) (at_ : Option Addr) (src : Nat) (node : Addr) (b : TdaList) :
    Run (ListObjects α) Status := do
  store src (← within (unlinkNode α b node))
  let a ← load self
  let prev ← within (prevOf α a at_)
  store self (← within (linkNode α a node prev at_))
  within (assertList (← load self))
  within (assertList (← load src))
  within (assertNode α node)
  return .ok

end ListObjects

namespace TdaList

open Objects ListObjects

variable {α C : Type} {s later : ListObjects α} {abs : Nat -> List (Addr × α)}

namespace Invariant

variable {self src : Nat} {at_ : Option Addr} {node : Addr}

/-- What is in a variable that is known, over nodes that are known. -/
theorem holds_at {list : TdaList} {nodes : List (Addr × α)} (invariant : Invariant s abs) (obj : s.objs self = list)
    (form : abs self = nodes) (real : list.al.isSome = true) : Holds s.mem.blocks list nodes := by
  subst obj form
  exact invariant.holds real

theorem ends_spliceNode_checked (invariant : Invariant s abs) (realSelf : (s.objs self).al.isSome = true)
    (realSrc : (s.objs src).al.isSome = true) (alike : Call.Alike s self src) (away : at_ ≠ some node)
    (place : forall addr, at_ = some addr -> addr ∈ addrs (abs self)) (inside : node ∈ addrs (abs src))
    {post : Status -> ListObjects α -> Prop}
    (across : (s.objs self).al ≠ (s.objs src).al ->
      Ends (carryAcross α self at_ src node (s.objs self)) s post)
    (directly : (s.objs self).al = (s.objs src).al ->
      Ends (carryWithin α self at_ src node (s.objs src)) s post) :
    Ends (ListObjects.spliceNode α self at_ src node) s post := by
  have same : (s.objs self).elem = (s.objs src).elem := alike
  have holds := invariant.holds realSelf
  have holdsSrc := invariant.holds realSrc
  have pos : forall {post : Unit -> ListMem α -> Prop}, Ends (assertPos α at_) s.mem post <-> post () s.mem := by
    intro post
    cases at_ with
    | none => exact ends_pure _ _ _
    | some addr => exact ends_assertNode holds (place addr rfl)
  have owned : forall {post : Unit -> ListMem α -> Prop},
      Ends (expectPlace α (s.objs self) at_) s.mem post <-> post () s.mem := by
    intro post
    cases at_ with
    | none => exact ends_pure _ _ _
    | some addr =>
        simp only [expectPlace, ends_bind, ends_ownsNode holds, ends_require, place addr rfl, decide_true, true_and]
  have ownedSrc : forall {post : Unit -> ListMem α -> Prop},
      Ends (expectPlace α (s.objs src) (some node)) s.mem post <-> post () s.mem := by
    intro post
    simp only [expectPlace, ends_bind, ends_ownsNode holdsSrc, ends_require, inside, decide_true, true_and]
  simp only [ListObjects.spliceNode, ends_bind, ends_load, ends_within, ends_assertList holds.asserts,
    ends_assertList holdsSrc.asserts, pos, ends_assertNode holdsSrc inside, expectSame, ends_require, same, true_and,
    owned, ownedSrc]
  refine ⟨away, ?_⟩
  rw [ends_ite]
  exact ⟨across, fun one => directly (not_not.mp one)⟩

/-- The elem goes into a new node of the one list, and its node leaves the other one. -/
theorem ends_carryAcross (invariant : Invariant s abs) (realSelf : (s.objs self).al.isSome = true)
    (realSrc : (s.objs src).al.isSome = true) (different : self ≠ src)
    (place : forall addr, at_ = some addr -> addr ∈ addrs (abs self)) (inside : node ∈ addrs (abs src))
    {post : Status -> ListObjects α -> Prop}
    (refused : ¬ s.mem.Supplies 1 -> forall later : ListObjects α, later.objs = s.objs ->
      later.mem.blocks = s.mem.blocks -> post .errNoMem later)
    (done : forall (later : ListObjects α) (made : Addr), s.mem.blocks made = none -> Invariant later
      (update (update abs src (dropNode node (abs src))) self
        (putBefore at_ ([made].zip (elems (onlyNode node (abs src)))) (abs self))) -> post .ok later) :
    Ends (carryAcross α self at_ src node (s.objs self)) s post := by
  have holds := invariant.holds realSelf
  have holdsSrc := invariant.holds realSrc
  have distinct := holds.nodup
  have distinctSrc := holdsSrc.nodup
  rcases exists_cut_at place with ⟨left, right, cut, rfl⟩
  rcases exists_place inside with ⟨front, val, back, split⟩
  rw [cut] at holds distinct
  rw [split] at holdsSrc distinctSrc
  simp only [carryAcross, ends_bind, ends_within, ends_prevOf holds, ends_readIn holdsSrc]
  apply ends_insertBetween holds
  · intro denied mid same
    simp only [ends_store, if_refused, ends_pure, update_eq_self]
    exact refused denied _ rfl same
  · intro after mid made free _ tends
    have first : Invariant ⟨update s.objs self after, mid⟩
        (update abs self (left ++ (made, val) :: right)) := by
      apply invariant.tended
      rw [cut]
      exact tends
    have untouched : update s.objs self after src = s.objs src := update_of_ne (Ne.symm different) _ _
    have sameNodes : update abs self (left ++ (made, val) :: right) src = front ++ (node, val) :: back :=
      (update_of_ne (Ne.symm different) _ _).trans split
    have source : Holds mid.blocks (s.objs src) (front ++ (node, val) :: back) :=
      holds_at first untouched sameNodes realSrc
    simp only [ends_store, if_granted, ends_bind, ends_load, ends_within, untouched]
    apply ends_removeNodeImpl source
    intro afterSrc last removed
    have second : Invariant ⟨update (update s.objs self after) src afterSrc, last⟩
        (update (update abs self (left ++ (made, val) :: right)) src (front ++ back)) := by
      apply first.tended
      change Tends mid.blocks last.blocks (update s.objs self after src) afterSrc _ _
      rw [untouched, sameNodes]
      exact removed
    have hereObj : update (update s.objs self after) src afterSrc self = after :=
      (update_of_ne different _ _).trans (update_self _ _ _)
    have hereNodes : update (update abs self (left ++ (made, val) :: right)) src (front ++ back) self =
        left ++ (made, val) :: right := (update_of_ne different _ _).trans (update_self _ _ _)
    have finalSelf : Holds last.blocks after (left ++ (made, val) :: right) :=
      holds_at second hereObj hereNodes (tends.al ▸ realSelf)
    simp only [update_of_ne different, update_self, ends_assertList finalSelf.asserts,
      ends_assertList removed.holds.asserts, ends_pure]
    apply done _ made free
    rw [split, dropNode_eq distinctSrc, onlyNode_eq distinctSrc, cut, update_comm (Ne.symm different)]
    change Invariant _ (update (update abs self (putBefore _ [(made, val)] (left ++ right))) src _)
    rw [putBefore_eq distinct, List.append_assoc]
    exact second

/-- The node itself goes from the one list to the other. -/
theorem ends_carryWithin_two (invariant : Invariant s abs) (realSelf : (s.objs self).al.isSome = true)
    (realSrc : (s.objs src).al.isSome = true) (alike : Call.Alike s self src) (different : self ≠ src)
    (one : (s.objs self).al = (s.objs src).al)
    (place : forall addr, at_ = some addr -> addr ∈ addrs (abs self)) (inside : node ∈ addrs (abs src))
    {post : Status -> ListObjects α -> Prop}
    (done : forall later : ListObjects α, Invariant later
      (update (update abs src (dropNode node (abs src))) self
        (putBefore at_ (onlyNode node (abs src)) (abs self))) -> post .ok later) :
    Ends (carryWithin α self at_ src node (s.objs src)) s post := by
  have holds := invariant.holds realSelf
  have holdsSrc := invariant.holds realSrc
  have apart := invariant.apart different
  have distinct := holds.nodup
  have distinctSrc := holdsSrc.nodup
  rcases exists_cut_at place with ⟨left, right, cut, rfl⟩
  rcases exists_place inside with ⟨front, val, back, split⟩
  rw [cut] at holds distinct apart
  rw [split] at holdsSrc distinctSrc apart
  have nodeIn : node ∈ addrs (front ++ (node, val) :: back) := by
    rw [addrs_append]
    exact List.mem_append_right _ List.mem_cons_self
  have fresh : node ∉ addrs (left ++ right) := fun also => apart also nodeIn
  simp only [carryWithin, ends_bind, ends_within]
  apply ends_unlinkNode holdsSrc
  intro afterSrc mid unlinked outside sameElem sameAl
  have notLeft : node ∉ addrs (front ++ back) := by
    rw [addrs_append, addrs_cons] at distinctSrc
    rw [addrs_append]
    exact (List.nodup_middle.mp distinctSrc).notMem
  have around : forall addr, addr ∈ addrs (left ++ right) -> addr ∉ addrs (front ++ back) := by
    intro addr mine also
    apply apart mine
    rw [addrs_append] at also ⊢
    rw [addrs_cons]
    exact (List.mem_append.mp also).elim (List.mem_append_left _)
      fun behind => List.mem_append_right _ (List.mem_cons_of_mem _ behind)
  have still : Holds mid.blocks (s.objs self) (left ++ right) :=
    holds.congr fun addr mine => outside addr (around addr mine)
  have tags : nodeTag (s.objs src) = nodeTag (s.objs self) := by
    have same : (s.objs self).elem = (s.objs src).elem := alike
    rw [nodeTag, nodeTag, same, one]
  have stored : NodeAt mid.blocks (nodeTag (s.objs self)) (node, val) := by
    have before := holdsSrc.stored _ (List.mem_append_right front List.mem_cons_self)
    rw [tags] at before
    exact before.congr (outside node notLeft)
  simp only [ends_store, ends_load, update_of_ne different, ends_prevOf still]
  apply ends_linkNode still stored fresh
  intro after last linked rewired keepsElem keepsAl
  have joint : Joint s.mem.blocks last.blocks (s.objs self) (s.objs src) after afterSrc (left ++ right)
      (front ++ (node, val) :: back) (left ++ (node, val) :: right) (front ++ back) :=
    Joint.of_carried unlinked outside linked rewired apart distinctSrc keepsElem keepsAl sameElem sameAl
  have final : Invariant ⟨update (update s.objs src afterSrc) self after, last⟩
      (update (update abs src (front ++ back)) self (left ++ (node, val) :: right)) := by
    rw [update_comm (Ne.symm different), update_comm (Ne.symm different)]
    apply invariant.joint different
    rw [cut, split]
    exact joint
  have nodeNow : node ∈ addrs (left ++ (node, val) :: right) := by
    rw [addrs_append]
    exact List.mem_append_right _ List.mem_cons_self
  simp only [update_self, update_of_ne (Ne.symm different), ends_assertList joint.holds.asserts,
    ends_assertList joint.holdsSrc.asserts, ends_assertNode joint.holds nodeNow, ends_pure]
  apply done
  rw [split, dropNode_eq distinctSrc, onlyNode_eq distinctSrc, cut, putBefore_eq distinct, List.append_assoc]
  exact final

/-- The node goes to another place of its own list. -/
theorem ends_carryWithin_one (invariant : Invariant s abs) (real : (s.objs self).al.isSome = true) (away : at_ ≠ some node)
    (place : forall addr, at_ = some addr -> addr ∈ addrs (abs self)) (inside : node ∈ addrs (abs self))
    {post : Status -> ListObjects α -> Prop}
    (done : forall later : ListObjects α, Invariant later
      (update abs self (putBefore at_ (onlyNode node (abs self)) (dropNode node (abs self)))) -> post .ok later) :
    Ends (carryWithin α self at_ self node (s.objs self)) s post := by
  have holds := invariant.holds real
  have distinct := holds.nodup
  rcases exists_place inside with ⟨front, val, back, split⟩
  rw [split] at holds distinct
  have fresh : node ∉ addrs (front ++ back) := by
    rw [addrs_append, addrs_cons] at distinct
    rw [addrs_append]
    exact (List.nodup_middle.mp distinct).notMem
  -- the place is among the nodes that are left
  have others : forall addr, at_ = some addr -> addr ∈ addrs (front ++ back) := by
    intro addr same
    have among := place addr same
    rw [split, addrs_append, addrs_cons, List.mem_append, List.mem_cons] at among
    rw [addrs_append, List.mem_append]
    refine among.imp_right fun behind => behind.resolve_left ?_
    rintro rfl
    exact away same
  rcases exists_cut_at others with ⟨left, right, cut, rfl⟩
  simp only [carryWithin, ends_bind, ends_within]
  apply ends_unlinkNode holds
  intro middle mid unlinked outside sameElem sameAl
  have nowHere : Holds mid.blocks middle (left ++ right) := cut ▸ unlinked
  have stored : NodeAt mid.blocks (nodeTag middle) (node, val) := by
    have tags : nodeTag middle = nodeTag (s.objs self) := by
      rw [nodeTag, nodeTag, sameElem, sameAl]
    rw [tags]
    exact (holds.stored _ (List.mem_append_right front List.mem_cons_self)).congr (outside node fresh)
  simp only [ends_store, ends_load, update_self, ends_prevOf nowHere]
  apply ends_linkNode nowHere stored (cut ▸ fresh)
  intro after last linked rewired keepsElem keepsAl
  have tends : Tends s.mem.blocks last.blocks (s.objs self) after (front ++ (node, val) :: back)
      (left ++ (node, val) :: right) := Tends.of_carried cut outside linked rewired sameElem sameAl keepsElem keepsAl
  have final : Invariant ⟨update s.objs self after, last⟩ (update abs self (left ++ (node, val) :: right)) := by
    apply invariant.tended
    rw [split]
    exact tends
  have nodeNow : node ∈ addrs (left ++ (node, val) :: right) := by
    rw [addrs_append]
    exact List.mem_append_right _ List.mem_cons_self
  simp only [update_idem, ends_assertList linked.asserts, ends_assertNode linked nodeNow, ends_pure]
  apply done
  have distinctNow := nowHere.nodup
  rw [split, dropNode_eq distinct, onlyNode_eq distinct, cut, putBefore_eq distinctNow, List.append_assoc]
  exact final

theorem ends_spliceNode (invariant : Invariant s abs) (self : Nat) (at_ : Option Addr) (src : Nat) (node : Addr)
    (allowed : (Call.spliceNode self at_ src node : Call α C).Allowed s) :
    Ends (Call.spliceNode self at_ src node : Call α C).run s ((Call.spliceNode self at_ src node).Done s abs) := by
  rcases allowed with ⟨realSelf, realSrc, alike, away, owned, ownedSrc⟩
  have place : forall addr, at_ = some addr -> addr ∈ addrs (abs self) :=
    fun addr same => (invariant.holds realSelf).owns_iff.mp (owned addr same)
  have inside : node ∈ addrs (abs src) := (invariant.holds realSrc).owns_iff.mp ownedSrc
  simp only [Call.run, ends_bind, ends_pure]
  apply invariant.ends_spliceNode_checked realSelf realSrc alike away place inside
  · intro two
    have different : self ≠ src := by
      rintro rfl
      exact two rfl
    have across : (Call.spliceNode self at_ src node : Call α C).relinks s = false := decide_eq_false two
    apply invariant.ends_carryAcross realSelf realSrc different place inside
    · intro denied later sameObjs same
      refine Or.inr ⟨?_, rfl, sameObjs, same⟩
      rw [across]
      exact denied
    · intro later made free now
      refine Or.inl ⟨[made], fun addr member => ?_, ?_, rfl, ?_⟩
      · rw [List.mem_singleton.mp member]
        exact free
      · rw [across]
        rfl
      · rw [across, Call.apply, update_of_ne different]
        exact now
  · intro one
    have within_ : (Call.spliceNode self at_ src node : Call α C).relinks s = true := decide_eq_true one
    have finish : forall later : ListObjects α, Invariant later
        ((Call.spliceNode self at_ src node : Call α C).apply true [] abs) ->
        (Call.spliceNode self at_ src node : Call α C).Done s abs (.ok, .nothing) later := by
      intro later now
      apply quiet
      · rw [within_]
        rfl
      · rfl
      · rwa [within_]
    by_cases same : self = src
    · subst same
      apply invariant.ends_carryWithin_one realSelf away place inside
      intro later now
      apply finish
      rw [Call.apply, update_idem, update_self]
      exact now
    · apply invariant.ends_carryWithin_two realSelf realSrc alike same one place inside
      intro later now
      apply finish
      rw [Call.apply, update_of_ne same]
      exact now

end Invariant
end TdaList
end TerseDsa
