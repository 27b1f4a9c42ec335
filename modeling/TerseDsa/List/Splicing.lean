import TerseDsa.List.Building
import TerseDsa.List.Relinking

namespace TerseDsa

open Foundation Run

/-!
# Two lists

The nodes of one list go to another.  On one allocator the nodes themselves are
linked in; across two allocators they are copied into a spare list, the copies
are linked in, and the nodes are given back.  `Joint` says the same of both:
what either list is afterwards, and which nodes the two own together.
-/

namespace TdaList

variable {α C S : Type} {heap : ListMem α} {blocks mid next later : Blocks AlTag (ListNode α)}
  {self src after bare spare : TdaList} {nodes others changed rest copies : List (Addr × α)} {front : Bool}
  {cmp : Cmp α C} {ctx : C}

/-- From two lists to two lists, on the same allocators. -/
structure Joint (blocks later : Blocks AlTag (ListNode α)) (list source after srcAfter : TdaList)
    (nodes others changed rest : List (Addr × α)) : Prop where
  holds : Holds later after changed
  holdsSrc : Holds later srcAfter rest
  apart : (addrs changed).Disjoint (addrs rest)
  evolves : Evolves blocks later (addrs nodes ++ addrs others) (addrs changed ++ addrs rest)
  elem : after.elem = list.elem
  al : after.al = list.al
  elemSrc : srcAfter.elem = source.elem
  alSrc : srcAfter.al = source.al

/-- What somebody else does to their own nodes leaves a list as it was. -/
theorem Holds.beside {before owned : List Addr} (holds : Holds blocks self nodes)
    (evolves : Evolves blocks later before owned) (apart : forall addr, addr ∈ addrs nodes -> addr ∉ before) :
    Holds later self nodes := by
  have inHeap : Holds (⟨blocks, fun _ => none, 0⟩ : ListMem α).blocks self nodes := holds
  exact inHeap.congr fun addr inside => evolves.keeps (apart addr inside) (inHeap.live inside)

theorem Holds.emptied (holds : Holds blocks self nodes) : Holds later (setEmpty self) ([] : List (Addr × α)) :=
  Holds.empty holds.real holds.elem holds.layout rfl rfl rfl

theorem Joint.refl (holds : Holds blocks self nodes) (holdsSrc : Holds blocks src others)
    (apart : (addrs nodes).Disjoint (addrs others)) : Joint blocks blocks self src self src nodes others nodes others :=
  ⟨holds, holdsSrc, apart, Evolves.refl _ _, rfl, rfl, rfl, rfl⟩

/-- The nodes of `src` were linked in with those of `self`. -/
theorem Joint.of_relinked (holdsSrc : Holds blocks src others) (now : Holds later after changed)
    (rewired : Rewired blocks later (addrs (nodes ++ others))) (perm : changed.Perm (nodes ++ others))
    (elem : after.elem = self.elem) (al : after.al = self.al) :
    Joint blocks later self src after (setEmpty src) nodes others changed [] := by
  refine ⟨now, holdsSrc.emptied, List.disjoint_nil_right _, ?_, elem, al, rfl, rfl⟩
  have evolves := rewired.evolves perm
  rw [addrs_append] at evolves
  rwa [addrs_nil, List.append_nil]

/-- The nodes of the source are neither those of the list nor the copies. -/
theorem Holds.apart_copies (holdsSrc : Holds blocks src others) (apart : (addrs nodes).Disjoint (addrs others))
    (made : Evolves blocks mid [] (addrs copies)) {addr : Addr} (inside : addr ∈ addrs others) :
    addr ∉ addrs nodes ++ addrs copies := by
  have inHeap : Holds (⟨blocks, fun _ => none, 0⟩ : ListMem α).blocks src others := holdsSrc
  intro also
  rcases List.mem_append.mp also with first | copied
  · exact apart first inside
  · exact inHeap.live inside (made.fresh addr copied List.not_mem_nil)

/-- Copies were made, linked in, and the nodes they were made of given back. -/
theorem Joint.of_copies (holdsSrc : Holds blocks src others) (apart : (addrs nodes).Disjoint (addrs others))
    (made : Evolves blocks mid [] (addrs copies))
    (joint : Joint mid next self spare after bare nodes copies changed [])
    (gone : Tends next later src (setEmpty src) others []) :
    Joint blocks later self src after (setEmpty src) nodes others changed [] := by
  have inHeap : Holds (⟨blocks, fun _ => none, 0⟩ : ListMem α).blocks src others := holdsSrc
  have still : forall addr, addr ∈ addrs others -> mid addr = blocks addr :=
    fun addr inside => made.keeps List.not_mem_nil (inHeap.live inside)
  have notAfter : forall addr, addr ∈ addrs changed -> addr ∉ addrs others := by
    intro addr inside also
    have none_ := joint.evolves.fresh addr (List.mem_append_left _ inside)
      (holdsSrc.apart_copies apart made also)
    rw [still addr also] at none_
    exact inHeap.live also none_
  refine ⟨joint.holds.beside gone.evolves notAfter, gone.holds, List.disjoint_nil_right _, ?_, joint.elem, joint.al,
    rfl, rfl⟩
  have first := made.frame (addrs nodes ++ addrs others)
  have second := joint.evolves.frame (addrs others)
  have third := gone.evolves.frame (addrs changed)
  have whole := (first.trans (second.congr (fun addr => by simp only [List.mem_append]; tauto) fun _ => Iff.rfl)).trans
    (third.congr (fun addr => by simp only [addrs_nil, List.append_nil, List.mem_append]; tauto) fun _ => Iff.rfl)
  exact whole.congr (fun _ => by rw [List.nil_append]) fun _ => by rw [addrs_nil, List.append_nil, List.nil_append]

/-- A spare list was made for the list, and its nodes were linked in after some other change. -/
theorem Joint.of_spare {middle : TdaList} (made : Evolves blocks mid [] (addrs copies))
    (tends : Tends mid next self middle nodes rest)
    (joint : Joint next later middle spare after bare rest copies changed []) : Tends blocks later self after nodes changed := by
  refine ⟨joint.holds, ?_, joint.elem.trans tends.elem, joint.al.trans tends.al⟩
  have first := made.frame (addrs nodes)
  have second := tends.evolves.frame (addrs copies)
  have both := first.trans (second.congr (fun addr => by simp only [List.mem_append]; tauto) fun _ => Iff.rfl)
  have whole := both.trans joint.evolves
  exact whole.congr (fun _ => by rw [List.nil_append]) fun _ => by rw [addrs_nil, List.append_nil]

/-! ## One node -/

section OneNode

variable {left right front back : List (Addr × α)} {node : Addr} {val : α} {srcAfter : TdaList}

/-- A node was taken out of one list and linked into another one. -/
theorem Joint.of_carried (unlinked : Holds mid srcAfter (front ++ back))
    (outside : forall addr, addr ∉ addrs (front ++ back) -> mid addr = blocks addr)
    (linked : Holds later after (left ++ (node, val) :: right))
    (rewired : Rewired mid later (addrs (left ++ (node, val) :: right)))
    (apart : (addrs (left ++ right)).Disjoint (addrs (front ++ (node, val) :: back)))
    (distinct : (addrs (front ++ (node, val) :: back)).Nodup) (elem : after.elem = self.elem) (al : after.al = self.al)
    (elemSrc : srcAfter.elem = src.elem) (alSrc : srcAfter.al = src.al) :
    Joint blocks later self src after srcAfter (left ++ right) (front ++ (node, val) :: back)
      (left ++ (node, val) :: right) (front ++ back) := by
  have separate : (addrs (left ++ (node, val) :: right)).Disjoint (addrs (front ++ back)) := by
    intro addr inside also
    simp only [addrs_append, addrs_cons, List.mem_append, List.mem_cons] at inside also
    by_cases same : addr = node
    · subst same
      rw [addrs_append, addrs_cons] at distinct
      exact (List.nodup_middle.mp distinct).notMem (List.mem_append.mpr also)
    · apply @apart addr
      · rw [addrs_append, List.mem_append]
        exact inside.imp_right fun behind => behind.resolve_left same
      · rw [addrs_append, addrs_cons, List.mem_append, List.mem_cons]
        exact also.imp_right Or.inr
  have inHeap : Holds (⟨mid, fun _ => none, 0⟩ : ListMem α).blocks srcAfter (front ++ back) := unlinked
  refine ⟨linked, inHeap.congr fun addr inside => rewired.outside addr fun also => separate also inside, separate, ?_,
    elem, al, elemSrc, alSrc⟩
  have within : Evolves blocks later (addrs (left ++ (node, val) :: right) ++ addrs (front ++ back))
      (addrs (left ++ (node, val) :: right) ++ addrs (front ++ back)) := by
    apply Evolves.of_within
    intro addr away
    rw [List.mem_append, not_or] at away
    exact (rewired.outside addr away.1).trans (outside addr away.2)
  apply within.congr _ fun _ => Iff.rfl
  intro addr
  simp only [addrs_append, addrs_cons, List.mem_append, List.mem_cons]
  tauto

/-- A node was taken out of its list and linked in at another place. -/
theorem Tends.of_carried {middle : TdaList} (same : front ++ back = left ++ right)
    (outside : forall addr, addr ∉ addrs (front ++ back) -> mid addr = blocks addr)
    (linked : Holds later after (left ++ (node, val) :: right))
    (rewired : Rewired mid later (addrs (left ++ (node, val) :: right))) (elem : middle.elem = self.elem)
    (al : middle.al = self.al) (elemAfter : after.elem = middle.elem) (alAfter : after.al = middle.al) :
    Tends blocks later self after (front ++ (node, val) :: back) (left ++ (node, val) :: right) := by
  refine ⟨linked, ?_, elemAfter.trans elem, alAfter.trans al⟩
  have members : forall addr, addr ∈ addrs (front ++ (node, val) :: back) <->
      addr ∈ addrs (left ++ (node, val) :: right) := by
    intro addr
    have joined := congrArg addrs same
    rw [addrs_append, addrs_append] at joined
    simp only [addrs_append, addrs_cons, List.mem_append, List.mem_cons, or_left_comm (b := addr = node)]
    rw [← List.mem_append, joined, List.mem_append]
  have within : Evolves blocks later (addrs (left ++ (node, val) :: right)) (addrs (left ++ (node, val) :: right)) := by
    apply Evolves.of_within
    intro addr away
    refine (rewired.outside addr away).trans (outside addr fun inside => away ?_)
    rw [same, addrs_append] at inside
    rw [addrs_append, addrs_cons]
    exact (List.mem_append.mp inside).elim (List.mem_append_left _)
      fun behind => List.mem_append_right _ (List.mem_cons_of_mem _ behind)
  exact within.congr members fun _ => Iff.rfl

end OneNode

/-! ## Splicing -/

/-- The nodes go before or behind those that are there. -/
def joined (front : Bool) (moved nodes : List (Addr × α)) : List (Addr × α) :=
  if front then moved ++ nodes else nodes ++ moved

theorem joined_perm (front : Bool) (moved nodes : List (Addr × α)) : (joined front moved nodes).Perm (nodes ++ moved) := by
  cases front with
  | true => exact List.perm_append_comm
  | false => exact List.Perm.refl _

theorem ends_spliceNodes (holds : Holds heap.blocks self nodes) (holdsSrc : Holds heap.blocks src others)
    (sameElem : self.elem = src.elem) (sameAl : self.al = src.al) (some_ : others ≠ [])
    (apart : (addrs nodes).Disjoint (addrs others)) {post : TdaList × TdaList -> ListMem α -> Prop}
    (done : forall (after : TdaList) (later : ListMem α),
      Joint heap.blocks later.blocks self src after (setEmpty src) nodes others (joined front others nodes) [] ->
      post (after, setEmpty src) later) :
    Ends (spliceNodes α self src front) heap post := by
  have lenSrc := holdsSrc.len
  have someSrc : src.len > 0 := by
    rw [lenSrc]
    exact List.length_pos_of_ne_nil some_
  have tags : nodeTag src = nodeTag self := by
    rw [nodeTag, nodeTag, sameElem, sameAl]
  have stored := holdsSrc.stored
  rw [tags] at stored
  have nonempty : addrs others ≠ [] := by
    rwa [addrs, ne_eq, List.map_eq_nil_iff]
  have firstIs : src.head = some ((addrs others).head nonempty) := by
    rw [holdsSrc.linked.head_eq, List.head?_eq_some_head]
  have lastIs : src.tail = some ((addrs others).getLast nonempty) := by
    rw [holdsSrc.linked.tail_eq, List.getLast?_eq_some_getLast]
  have linked := holdsSrc.linked
  rw [firstIs, lastIs] at linked
  have emptied : Holds heap.blocks (setEmpty src) ([] : List (Addr × α)) := holdsSrc.emptied
  rw [spliceNodes, ends_bind, ends_require]
  refine ⟨sameAl, ?_⟩
  rw [ends_bind, ends_require]
  refine ⟨sameElem, ?_⟩
  rw [ends_bind, ends_require]
  refine ⟨someSrc, ?_⟩
  have finish : forall (after : TdaList) (later : ListMem α), Holds later.blocks after (joined front others nodes) ->
      Rewired heap.blocks later.blocks (addrs (joined front others nodes)) -> after.elem = self.elem ->
      after.al = self.al -> Ends (do
        let src := setEmpty src
        assertList after
        assertList src
        return (after, src)) later post := by
    intro after later now rewired keepsElem keepsAl
    have perm := joined_perm front others nodes
    have within := rewired.mono fun addr inside => (addrs_perm perm).mem_iff.mp inside
    simp only [ends_bind, ends_assertList now.asserts, ends_assertList emptied.asserts, ends_pure]
    exact done after later (Joint.of_relinked holdsSrc now within perm keepsElem keepsAl)
  rw [firstIs, lastIs, lenSrc]
  cases front with
  | true =>
      have place : Holds heap.blocks self ([] ++ nodes) := holds
      have distinct : (addrs ([] ++ others ++ nodes)).Nodup := by
        rw [List.nil_append, addrs_append]
        exact List.nodup_append'.mpr ⟨holdsSrc.nodup, holds.nodup, fun _ inside also => apart also inside⟩
      simp only [if_true, ends_bind, ends_demand_some, holds.linked.head_eq]
      apply ends_linkChain place stored linked.fwd linked.bwd some_ distinct
      intro after later now rewired keepsElem keepsAl
      have final := finish after later now rewired keepsElem keepsAl
      simp only [ends_bind] at final
      exact final
  | false =>
      have place : Holds heap.blocks self (nodes ++ []) := by
        rwa [List.append_nil]
      have distinct : (addrs (nodes ++ others ++ [])).Nodup := by
        rw [List.append_nil, addrs_append]
        exact List.nodup_append'.mpr ⟨holds.nodup, holdsSrc.nodup, apart⟩
      simp only [Bool.false_eq_true, if_false, ends_bind, ends_demand_some, holds.linked.tail_eq]
      apply ends_linkChain place stored linked.fwd linked.bwd some_ distinct
      intro after later now rewired keepsElem keepsAl
      rw [List.append_nil] at now rewired
      have final := finish after later now rewired keepsElem keepsAl
      simp only [ends_bind] at final
      exact final

/-! ## Across allocators -/

/-- On one allocator the nodes themselves will do; otherwise there is a copy, or a refusal. -/
theorem ends_nodesFor (holdsSrc : Holds heap.blocks src others) (real : self.al.isSome = true)
    {post : Status × Option TdaList -> ListMem α -> Prop} (same : self.al = src.al -> post (.ok, none) heap)
    (refused : self.al ≠ src.al -> ¬ heap.Supplies others.length -> heap.Spared (post (.errNoMem, none)))
    (copied : self.al ≠ src.al -> forall (spare : TdaList) (later : ListMem α) (copies : List (Addr × α)),
      elems copies = elems others -> Born heap.blocks later.blocks spare copies src.elem self.al ->
      post (.ok, some spare) later) :
    Ends (nodesFor α self src) heap post := by
  rw [nodesFor, ends_ite]
  constructor
  · intro one
    exact (ends_pure _ _ _).mpr (same one)
  · intro two
    exact ends_copyWith holdsSrc real (refused two) (copied two)

/-- The spare list has no nodes any more, and those of the source are given back. -/
theorem ends_releaseSource (holdsSrc : Holds heap.blocks src others)
    (holdsSpare : Holds heap.blocks spare ([] : List (Addr × α))) {post : TdaList -> ListMem α -> Prop}
    (done : forall later : ListMem α, Tends heap.blocks later.blocks src (setEmpty src) others [] ->
      post (setEmpty src) later) :
    Ends (releaseSource α src spare) heap post := by
  rw [releaseSource, ends_bind]
  apply ends_deinit holdsSpare
  intro mid gone
  have same : mid.blocks = heap.blocks := gone.eq_of_nil
  apply ends_clearNodes (holdsSrc.congr fun addr _ => congrFun same addr)
  rw [same]
  exact done

/-- A list that was copied to another allocator, and its copy. -/
theorem Born.copied (born : Born blocks mid spare copies src.elem self.al) (holds : Holds blocks self nodes)
    (holdsSrc : Holds blocks src others) (sameElem : self.elem = src.elem) :
    Holds mid self nodes ∧ Holds mid src others ∧ self.elem = spare.elem ∧ self.al = spare.al ∧
      (addrs nodes).Disjoint (addrs copies) := by
  have inHeap : Holds (⟨blocks, fun _ => none, 0⟩ : ListMem α).blocks self nodes := holds
  refine ⟨holds.beside born.evolves fun _ _ => List.not_mem_nil, holdsSrc.beside born.evolves fun _ _ => List.not_mem_nil,
    sameElem.trans born.elem_eq.symm, born.al_eq.symm, ?_⟩
  exact fun _ inside also => inHeap.live inside (born.evolves.fresh _ also List.not_mem_nil)

/-- Splicing has one effect on the elems, whether or not the allocators are the same. -/
theorem ends_spliceImpl (holds : Holds heap.blocks self nodes) (holdsSrc : Holds heap.blocks src others)
    (sameElem : self.elem = src.elem) (apart : (addrs nodes).Disjoint (addrs others))
    {post : Status × TdaList × TdaList -> ListMem α -> Prop}
    (refused : self.al ≠ src.al -> ¬ heap.Supplies others.length -> heap.Spared (post (.errNoMem, self, src)))
    (done : forall (after emptied : TdaList) (later : ListMem α) (moved : List (Addr × α)), elems moved = elems others ->
      (self.al = src.al -> moved = others) ->
      (self.al ≠ src.al -> forall addr, addr ∈ addrs moved -> heap.blocks addr = none) ->
      Joint heap.blocks later.blocks self src after emptied nodes others (joined front moved nodes) [] ->
      post (.ok, after, emptied) later) :
    Ends (spliceImpl α self src front) heap post := by
  have lenSrc := holdsSrc.len
  rw [spliceImpl, ends_ite]
  constructor
  · intro empty
    have none_ : others = [] := List.eq_nil_of_length_eq_zero (lenSrc.symm.trans empty)
    subst none_
    have still : joined front ([] : List (Addr × α)) nodes = nodes := by
      cases front with
      | true => rfl
      | false => exact List.append_nil nodes
    rw [ends_pure]
    apply done self src heap [] rfl (fun _ => rfl) fun _ _ inside => absurd inside List.not_mem_nil
    rw [still]
    exact Joint.refl holds holdsSrc apart
  · intro more
    have some_ : others ≠ [] := by
      rintro rfl
      exact more lenSrc
    rw [ends_bind]
    apply ends_nodesFor holdsSrc holds.real
    · intro one
      simp only [if_granted, ends_bind]
      apply ends_spliceNodes holds holdsSrc sameElem one some_ apart
      intro after later joint
      rw [ends_assertList joint.holds.asserts, ends_assertList joint.holdsSrc.asserts, ends_pure]
      exact done after _ later others rfl (fun _ => rfl) (absurd one) joint
    · intro two denied later same
      simp only [if_refused, ends_pure]
      exact refused two denied later same
    · intro two spare mid copies sameElems born
      rcases born.copied holds holdsSrc sameElem with ⟨holdsMid, holdsSrcMid, elemIs, alIs, apartMid⟩
      have someCopies : copies ≠ [] := by
        rintro rfl
        exact some_ (List.map_eq_nil_iff.mp sameElems.symm)
      simp only [if_granted, ends_bind]
      apply ends_spliceNodes holdsMid born.holds elemIs alIs someCopies apartMid
      intro after next joint
      have source := holdsSrcMid.beside joint.evolves fun _ => holdsSrc.apart_copies apart born.evolves
      apply ends_releaseSource source joint.holdsSrc
      intro later gone
      have final := Joint.of_copies holdsSrc apart born.evolves joint gone
      rw [ends_pure, ends_assertList final.holds.asserts, ends_assertList final.holdsSrc.asserts, ends_pure]
      exact done after _ later copies sameElems (fun one => absurd one two)
        (fun _ addr inside => born.evolves.fresh addr inside List.not_mem_nil) final

/-- Merging has one effect on the elems, whether or not the allocators are the same. -/
theorem ends_mergeImpl (holds : Holds heap.blocks self nodes) (holdsSrc : Holds heap.blocks src others)
    (sameElem : self.elem = src.elem) (apart : (addrs nodes).Disjoint (addrs others))
    {post : Status × TdaList × TdaList × C -> ListMem α -> Prop}
    (refused : self.al ≠ src.al -> ¬ heap.Supplies others.length -> heap.Spared (post (.errNoMem, self, src, ctx)))
    (done : forall (after bare : TdaList) (later : ListMem α) (moved : List (Addr × α)), elems moved = elems others ->
      (self.al = src.al -> moved = others) ->
      (self.al ≠ src.al -> forall addr, addr ∈ addrs moved -> heap.blocks addr = none) ->
      Joint heap.blocks later.blocks self src after bare nodes others (mergeBy (byElem cmp) nodes moved ctx).1 [] ->
      post (.ok, after, bare, (mergeBy (byElem cmp) nodes moved ctx).2) later) :
    Ends (mergeImpl self src cmp ctx) heap post := by
  have lenSrc := holdsSrc.len
  rw [mergeImpl, ends_ite]
  constructor
  · intro empty
    have none_ : others = [] := List.eq_nil_of_length_eq_zero (lenSrc.symm.trans empty)
    subst none_
    have final := done self src heap [] rfl (fun _ => rfl) fun _ _ inside => absurd inside List.not_mem_nil
    rw [mergeBy_nil_right] at final
    exact (ends_pure _ _ _).mpr (final (Joint.refl holds holdsSrc apart))
  · intro more
    have some_ : others ≠ [] := by
      rintro rfl
      exact more lenSrc
    rw [ends_bind]
    apply ends_nodesFor holdsSrc holds.real
    · intro one
      simp only [if_granted, ends_bind]
      apply ends_mergeInto holds holdsSrc sameElem one some_ apart
      intro after later now rewired keepsElem keepsAl
      have joint := Joint.of_relinked holdsSrc now rewired mergeBy_perm keepsElem keepsAl
      rw [ends_assertList joint.holds.asserts, ends_assertList joint.holdsSrc.asserts, ends_pure]
      exact done after _ later others rfl (fun _ => rfl) (absurd one) joint
    · intro two denied later same
      simp only [if_refused, ends_pure]
      exact refused two denied later same
    · intro two spare mid copies sameElems born
      rcases born.copied holds holdsSrc sameElem with ⟨holdsMid, holdsSrcMid, elemIs, alIs, apartMid⟩
      have someCopies : copies ≠ [] := by
        rintro rfl
        exact some_ (List.map_eq_nil_iff.mp sameElems.symm)
      simp only [if_granted, ends_bind]
      apply ends_mergeInto holdsMid born.holds elemIs alIs someCopies apartMid
      intro after next now rewired keepsElem keepsAl
      have joint := Joint.of_relinked born.holds now rewired mergeBy_perm keepsElem keepsAl
      have source := holdsSrcMid.beside joint.evolves fun _ => holdsSrc.apart_copies apart born.evolves
      apply ends_releaseSource source joint.holdsSrc
      intro later gone
      have final := Joint.of_copies holdsSrc apart born.evolves joint gone
      rw [ends_pure, ends_assertList final.holds.asserts, ends_assertList final.holdsSrc.asserts, ends_pure]
      exact done after _ later copies sameElems (fun one => absurd one two)
        (fun _ addr inside => born.evolves.fresh addr inside List.not_mem_nil) final

/-! ## New nodes at the end -/

/-- Nodes for the elems are added behind, or nothing is changed since a request was refused. -/
theorem ends_extend {view : SpanView α} (holds : Holds heap.blocks self nodes) (sameElem : self.elem = view.elem)
    {post : Status × TdaList -> ListMem α -> Prop}
    (refused : ¬ heap.Supplies view.elems.length -> heap.Spared (post (.errNoMem, self)))
    (done : forall (after : TdaList) (later : ListMem α) (made : List (Addr × α)), elems made = view.elems ->
      Tends heap.blocks later.blocks self after nodes (nodes ++ made) -> post (.ok, after) later) :
    Ends (extend self view) heap post := by
  rw [extend, ends_bind, ends_assertList holds.asserts, ends_bind, ends_require]
  refine ⟨sameElem, ?_⟩
  rw [ends_ite]
  constructor
  · intro empty
    have none_ : view.elems = [] := List.eq_nil_of_length_eq_zero empty
    rw [ends_pure]
    apply done self heap [] none_.symm
    rw [List.append_nil]
    exact Tends.refl holds
  · intro more
    have storable : Storable view.elem := sameElem ▸ holds.storable
    rw [ends_bind, fromSpan]
    apply ends_fromData storable holds.real
    · intro denied later same
      simp only [if_refused, ends_pure]
      exact refused denied later same
    · intro chain mid made sameElems born
      have some_ : made ≠ [] := by
        rintro rfl
        exact more (congrArg List.length sameElems.symm)
      have holdsMid := holds.beside born.evolves fun _ _ => List.not_mem_nil
      have apart : (addrs nodes).Disjoint (addrs made) :=
        fun _ inside also => holds.live inside (born.evolves.fresh _ also List.not_mem_nil)
      simp only [if_granted, ends_bind, ends_demand_some]
      apply ends_spliceNodes holdsMid born.holds (sameElem.trans born.elem_eq.symm) born.al_eq.symm some_ apart
      intro after later joint
      rw [ends_assertList joint.holds.asserts, ends_pure]
      exact done after later made sameElems (Joint.of_spare born.evolves (Tends.refl holdsMid) joint)

/-! ## Copying over -/

/-- Nodes are taken off the back until the list is short enough. -/
theorem ends_dropBack {bound fuel : Nat} (holds : Holds heap.blocks self (nodes ++ rest)) (short : nodes.length ≤ bound)
    (exact_ : rest ≠ [] -> nodes.length = bound) (enough : rest.length < fuel) {post : TdaList -> ListMem α -> Prop}
    (done : forall (after : TdaList) (later : ListMem α),
      Tends heap.blocks later.blocks self after (nodes ++ rest) nodes -> post after later) :
    Ends (loop (fun (list : TdaList) => do
      if list.len > bound then
        return .again (← removeNodeImpl α list (← demand list.tail))
      else
        return .leave list) fuel self) heap post := by
  refine ends_loop (fun todo (list : TdaList) later => exists kept, todo = kept.length ∧ (kept ≠ [] -> rest ≠ []) ∧
    Tends heap.blocks later.blocks self list (nodes ++ rest) (nodes ++ kept)) ?_ ⟨rest, rfl, id, Tends.refl holds⟩ enough
  rintro todo list mid ⟨kept, rfl, among, tends⟩
  have len := tends.holds.len
  rw [List.length_append] at len
  rw [ends_ite]
  constructor
  · intro more
    have some_ : kept ≠ [] := by
      rintro rfl
      rw [List.length_nil] at len
      omega
    rcases List.eq_nil_or_concat kept with none_ | ⟨front, ⟨last, val⟩, split⟩
    · exact absurd none_ some_
    rw [List.concat_eq_append] at split
    subst split
    have tail : list.tail = some last := by
      rw [tends.holds.linked.tail_eq, addrs_append, addrs_append, ← List.append_assoc]
      exact List.getLast?_concat
    have shown := tends.holds
    rw [← List.append_assoc] at shown
    rw [ends_bind, tail, ends_demand_some, ends_bind]
    apply ends_removeNodeImpl shown
    intro after later removed
    rw [List.append_nil, List.append_assoc] at removed
    rw [ends_pure]
    refine ⟨front.length, by simp, front, rfl, fun _ => among some_, tends.trans removed⟩
  · intro enough
    have none_ : kept = [] := by
      by_contra some_
      have total := exact_ (among some_)
      have positive := List.length_pos_of_ne_nil some_
      omega
    subst none_
    rw [List.append_nil] at tends
    exact (ends_pure _ _ _).mpr (done list mid tends)

/-- Some nodes have the elems of the first nodes of the other list. -/
structure Overwritten (blocks now : Blocks AlTag (ListNode α)) (list : TdaList)
    (nodes others written rest taken left : List (Addr × α)) : Prop where
  split : others = taken ++ left
  addrs_eq : addrs nodes = addrs written ++ addrs rest
  elems_eq : elems written = elems taken
  tends : Tends blocks now list list nodes (written ++ rest)

namespace Overwritten

variable {written taken left : List (Addr × α)}

theorem lengths (state : Overwritten blocks mid self nodes others written rest taken left) :
    written.length = taken.length ∧ others.length = taken.length + left.length ∧
      nodes.length = written.length + rest.length := by
  refine ⟨?_, ?_, ?_⟩
  · have same := congrArg List.length state.elems_eq
    rwa [elems, elems, List.length_map, List.length_map] at same
  · rw [state.split, List.length_append]
  · have same := congrArg List.length state.addrs_eq
    rwa [List.length_append, addrs, addrs, addrs, List.length_map, List.length_map, List.length_map] at same

/-- Where one of the two is used up, the nodes left over in the other are those that are not there for it. -/
theorem left_eq (state : Overwritten blocks mid self nodes others written rest taken left)
    (over_ : rest = [] ∨ left = []) : others.drop nodes.length = left := by
  have lengths := state.lengths
  rcases over_ with rfl | rfl
  · rw [List.length_nil] at lengths
    rw [state.split]
    exact List.drop_left' (by omega)
  · rw [List.length_nil] at lengths
    exact List.drop_eq_nil_of_le (by omega)

/-- The nodes that have a counterpart stay. -/
theorem kept (state : Overwritten blocks mid self nodes others written rest taken left)
    (over_ : rest = [] ∨ left = []) : addrs (nodes.take others.length) = addrs written := by
  have lengths := state.lengths
  have taken_ : addrs (nodes.take others.length) = (addrs nodes).take others.length := List.map_take
  rw [taken_, state.addrs_eq]
  rcases over_ with rfl | rfl
  · rw [List.length_nil] at lengths
    rw [addrs_nil, List.append_nil, List.take_of_length_le]
    rw [addrs, List.length_map]
    omega
  · rw [List.length_nil] at lengths
    apply List.take_left'
    rw [addrs, List.length_map]
    omega

end Overwritten

/-- The list has the elems of the other one, in its own nodes as far as they go, or nothing is changed. -/
theorem ends_copyOver (holds : Holds heap.blocks self nodes) (holdsSrc : Holds heap.blocks src others)
    (apart : (addrs nodes).Disjoint (addrs others))
    {post : Status × TdaList -> ListMem α -> Prop}
    (refused : ¬ heap.Supplies (others.length - nodes.length) -> heap.Spared (post (.errNoMem, self)))
    (done : forall (after : TdaList) (later : ListMem α) (changed : List (Addr × α)), elems changed = elems others ->
      addrs (nodes.take others.length) <+: addrs changed ->
      Tends heap.blocks later.blocks self after nodes changed -> post (.ok, after) later) :
    Ends (copyOver α self src) heap post := by
  have lenSelf := holds.len
  have lenSrc := holdsSrc.len
  have owner : Holds heap.blocks src (others.take nodes.length ++ others.drop nodes.length) := by
    rwa [List.take_append_drop]
  rw [copyOver, ends_bind, ends_init holds.storable holds.real, ends_bind, ends_skip holdsSrc.chain,
    ends_bind, lenSelf]
  apply ends_pushCopies owner holds.storable holds.real (by rw [lenSrc, List.length_drop]; exact Nat.sub_le _ _)
  · intro denied after later same
    simp only [if_refused, ends_pure]
    rw [List.length_drop] at denied
    exact refused denied later same
  intro spare mid copies copied born
  have holdsMid := holds.beside born.evolves fun _ _ => List.not_mem_nil
  have holdsSrcMid := holdsSrc.beside born.evolves fun _ _ => List.not_mem_nil
  have apartSpare : (addrs nodes).Disjoint (addrs copies) :=
    fun _ inside also => holds.live inside (born.evolves.fresh _ also List.not_mem_nil)
  simp only [if_granted]
  rw [ends_bind]
  apply ends_loop (fun todo (vars : Option Addr × Option Addr) later => exists written rest taken left,
    todo = rest.length ∧ vars.1 = (addrs rest).head? ∧ vars.2 = (addrs left).head? ∧
      Overwritten mid.blocks later.blocks self nodes others written rest taken left) ?_ (n := nodes.length)
    ⟨[], nodes, [], others, rfl, holds.linked.head_eq, holdsSrc.linked.head_eq, rfl, rfl, rfl, Tends.refl holdsMid⟩
    (Nat.lt_succ_self _)
  rintro todo ⟨dst, from_⟩ next ⟨written, rest, taken, left, rfl, rfl, rfl, state⟩
  have holdsNow := state.tends.holds
  have holdsSrcNow := holdsSrcMid.beside state.tends.evolves fun _ inside also => apart also inside
  -- once one of the lists is used up, the rest of the program
  have finish : rest = [] ∨ left = [] -> Ends (do
      let after ← loop (fun (list : TdaList) => do
        if list.len > src.len then
          return .again (← removeNodeImpl α list (← demand list.tail))
        else
          return .leave list) (nodes.length + 1) self
      let final ← if spare.len > 0 then do
          let pair ← spliceNodes α after spare false
          pure pair.1
        else pure after
      assertList final
      return (Status.ok, final)) next post := by
    intro over_
    have lengths := state.lengths
    have remaining := state.left_eq over_
    rw [ends_bind]
    apply ends_dropBack holdsNow (by omega) _ (by omega)
    · intro after dropped shorter
      have tends := state.tends.trans shorter
      have spareNow := born.holds.beside tends.evolves fun _ inside also => apartSpare also inside
      have prefix_ := state.kept over_
      rw [remaining] at copied
      dsimp only
      rw [ends_ite]
      constructor
      · intro more
        have some_ : copies ≠ [] := by
          rintro rfl
          rw [born.holds.len] at more
          exact absurd more (Nat.lt_irrefl 0)
        have elemIs : after.elem = spare.elem := tends.elem.trans born.elem_eq.symm
        have apartNow : (addrs written).Disjoint (addrs copies) := by
          intro addr inside also
          rw [List.disjoint_left] at apartSpare
          apply apartSpare _ also
          rw [state.addrs_eq]
          exact List.mem_append_left _ inside
        rw [ends_bind]
        apply ends_spliceNodes tends.holds spareNow elemIs (tends.al.trans born.al_eq.symm) some_ apartNow
        intro final later joint
        rw [ends_bind, ends_pure, ends_bind, ends_assertList joint.holds.asserts, ends_pure]
        apply done final later (written ++ copies) _ _ (Joint.of_spare born.evolves tends joint)
        · rw [state.split, elems, elems, List.map_append, List.map_append]
          exact congrArg₂ (· ++ ·) state.elems_eq copied
        · rw [prefix_, addrs_append]
          exact List.prefix_append _ _
      · intro none_
        have bare : copies = [] := by
          apply List.eq_nil_of_length_eq_zero
          have len := born.holds.len
          omega
        subst bare
        have nothing : left = [] := List.map_eq_nil_iff.mp copied.symm
        have same : mid.blocks = heap.blocks := born.evolves.eq_of_nil
        rw [same] at tends
        rw [ends_bind, ends_pure, ends_bind, ends_assertList tends.holds.asserts, ends_pure]
        apply done after dropped written _ _ tends
        · rw [state.split, nothing, List.append_nil]
          exact state.elems_eq
        · exact prefix_ ▸ List.prefix_refl _
    · intro some_
      have nothing := over_.resolve_left some_
      rw [nothing, List.length_nil] at lengths
      omega
  simp only [ends_bind] at finish
  cases rest with
  | nil =>
      simp only [addrs_nil, List.head?_nil, ends_pure, ends_bind]
      exact finish (Or.inl rfl)
  | cons entry rest =>
      rcases entry with ⟨node, old⟩
      cases left with
      | nil =>
          simp only [addrs_cons, addrs_nil, List.head?_cons, List.head?_nil, ends_pure, ends_bind]
          exact finish (Or.inr rfl)
      | cons source left =>
          rcases source with ⟨origin, val⟩
          have shown := holdsSrcNow
          rw [state.split] at shown
          simp only [addrs_cons, List.head?_cons, ends_bind, ends_readIn shown]
          apply ends_setElem holdsNow
          intro later tends
          have after := state.tends.trans tends
          have holdsSrcLater := holdsSrcMid.beside after.evolves fun _ inside also => apart also inside
          rw [state.split] at holdsSrcLater
          simp only [ends_readIn tends.holds, ends_readIn holdsSrcLater, ends_pure]
          refine ⟨rest.length, Nat.lt_succ_self _, written ++ [(node, val)], rest, taken ++ [(origin, val)], left, rfl, rfl,
            rfl, ?_, ?_, ?_, ?_⟩
          · rw [state.split, List.append_assoc]
            rfl
          · rw [state.addrs_eq, addrs_append, List.append_assoc]
            rfl
          · rw [elems, elems, List.map_append, List.map_append]
            exact congrArg (· ++ [val]) state.elems_eq
          · rw [List.append_assoc]
            exact after

end TdaList
end TerseDsa
