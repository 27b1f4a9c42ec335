import TerseDsa.HMap.Refinement
import TerseDsa.HMap.Compare

namespace TerseDsa

open Foundation Run

/-!
# What every call on one object keeps

`Tends` sums a call up without regard to what it was for: the object is well
formed again, nothing but its own blocks changed, and if the callbacks are
lawful its keys are still apart.  The lemmas below say this of each operation
of maps and sets, including the set operations that walk a second object.
-/

variable {K V C : Type}

/-- The operations of a set on one object. -/
inductive SetOp (K C : Type) where
  | insert (key : K)
  | extend (src : SpanView K)
  | remove (key : K)
  | take (key : K)
  | removeNode (node : Addr)
  | retain (pred : K -> C -> Bool × C) (ctx : C)
  | clear
  | reserve (newCap : Nat)
  | shrinkToFit

/-- Call the operation; what it reports is dropped. -/
def SetOp.run : SetOp K C -> HSet K -> Run (HMapMem K V) (HSet K)
  | insert key, self => do
      let (_, _, self) ← HSet.insert self key
      return self
  | extend src, self => do
      let (_, self) ← HSet.extend self src
      return self
  | remove key, self => do
      let (_, self) ← HSet.remove self key
      return self
  | take key, self => do
      let (_, _, self) ← HSet.take self key
      return self
  | removeNode node, self => HSet.removeNode self node
  | retain pred ctx, self => do
      let (self, _) ← HSet.retain self (fun key ctx => pure (pred key ctx)) ctx
      return self
  | clear, self => HSet.clear self
  | reserve newCap, self => do
      let (_, self) ← HSet.reserve self newCap
      return self
  | shrinkToFit, self => do
      let (_, self) ← HSet.shrinkToFit self
      return self

/-- What the caller has to see to: a set, a span of its keys, its own node. -/
def SetOp.Allowed (self : HSet K) (heap : HMapMem K V) (op : SetOp K C) : Prop :=
  self.val.size = 0 ∧
    match op with
    | extend src => self.key = src.elem
    | removeNode node => HMap.Walked self heap node
    | _ => True

/-- The set operations that change `self` by walking or asking `other`. -/
inductive PairOp where
  | union
  | intersection
  | difference
  | symmetricDifference

/-- Call the operation on two different objects. -/
def PairOp.run : PairOp -> HSet K -> HSet K -> Run (HMapMem K V) (HSet K)
  | union, self, other => do
      let (_, self) ← HSet.union self other
      return self
  | intersection, self, other => HSet.intersection self other
  | difference, self, other => HSet.difference self other
  | symmetricDifference, self, other => do
      let (_, self) ← HSet.symmetricDifference self other
      return self

namespace HMap

variable {heap later last : HMapMem K V} {self after final other : HMap K}
  {table changed latest others : HMapTable K V} {entry : HMapEntry K V} {key : K}

/-- The object after a call. -/
structure Tends (heap later : HMapMem K V) (map after : HMap K) (table changed : HMapTable K V) :
    Prop where
  steps : Steps heap.blocks later.blocks map after table changed
  keyed : Lawful map -> Keyed map table.flatten -> Keyed map changed.flatten

namespace Tends

theorem refl (rep : Rep heap.blocks self table) (shape : Shape self table) :
    Tends heap heap self self table table :=
  ⟨Steps.refl rep shape, fun _ => id⟩

theorem trans (first : Tends heap later self after table changed)
    (second : Tends later last after final changed latest) :
    Tends heap last self final table latest := by
  refine ⟨first.steps.trans second.steps, fun lawful keyed => ?_⟩
  have again := second.keyed (lawful.congr first.steps.eq_eq first.steps.hasher_eq)
    ((first.keyed lawful keyed).congr first.steps.eq_eq first.steps.hasher_eq)
  exact again.congr first.steps.eq_eq.symm first.steps.hasher_eq.symm

theorem of_perm (steps : Steps heap.blocks later.blocks self after table changed)
    (perm : changed.flatten.Perm table.flatten) : Tends heap later self after table changed :=
  ⟨steps, fun lawful keyed => keyed.perm lawful perm⟩

theorem of_sublist (steps : Steps heap.blocks later.blocks self after table changed)
    (sub : changed.flatten.Sublist table.flatten) : Tends heap later self after table changed :=
  ⟨steps, fun _ keyed => keyed.sublist sub⟩

theorem others_stay (tends : Tends heap later self after table changed)
    (rep : Rep heap.blocks other others)
    (apart : forall addr, addr ∈ owned other others -> addr ∉ owned self table) :
    Rep later.blocks other others :=
  rep.congr fun addr mine => tends.steps.evolves.keeps (apart addr mine) (rep.live mine)

theorem val_size (tends : Tends heap later self after table changed) (noVal : self.val.size = 0) :
    after.val.size = 0 := by
  rw [tends.steps.val_eq]
  exact noVal

end Tends

theorem takes_sublist {before rest : List (HMapEntry K V)} {out : Bool × Option (K × Option V)}
    (takes : Takes self key before out rest) : rest.Sublist before := by
  cases takes with
  | taken entry left right found split =>
      subst split
      exact (List.sublist_cons_self entry right).append_left left
  | absent missing => exact List.Sublist.refl _

/-! ## Operations of maps -/

theorem tends_run (op : MapOp K V C) (rep : Rep heap.blocks self table) (shape : Shape self table)
    (allowed : op.Allowed self heap) :
    Ends (op.run self) heap (fun result later => exists changed,
      Tends heap later self result.2 table changed) := by
  cases op with
  | insert key val =>
      simp only [MapOp.run, ends_bind]
      refine ends_insert rep shape (Or.inl rfl) ?_
      intro out after changed later steps _ _ inserts
      simp only [ends_pure]
      exact ⟨changed, steps, inserts.keyed⟩
  | extend keys vals =>
      rcases allowed with ⟨sameKeys, sameVals, sameLen⟩
      simp only [MapOp.run]
      refine ends_extend rep shape sameKeys sameVals sameLen ?_
      intro st after changed later steps inserts
      exact ⟨changed, steps, inserts.keyed⟩
  | getOrInsert key val =>
      simp only [MapOp.run, ends_bind]
      refine ends_getOrInsert rep shape (Or.inl rfl) ?_
      rintro ⟨st, node⟩ after changed later steps _ _ gets
      have tends : Tends heap later self after table changed := ⟨steps, gets.keyed⟩
      cases node with
      | none =>
          simp only [ends_pure]
          exact ⟨changed, tends⟩
      | some node =>
          rcases gets.node_mem with ⟨entry, member, rfl⟩
          simp only [MapOp.readEntry, ends_bind, ends_nodeKey steps.rep steps.shape member,
            ends_nodeVal steps.rep steps.shape member, ends_pure]
          exact ⟨changed, tends⟩
  | remove key =>
      refine ends_remove rep shape ?_
      intro out after changed later steps takes
      exact ⟨changed, .of_sublist steps (takes_sublist takes)⟩
  | take key =>
      simp only [MapOp.run, ends_bind]
      refine ends_take rep shape ?_
      intro out after changed later steps takes
      simp only [ends_pure]
      exact ⟨changed, .of_sublist steps (takes_sublist takes)⟩
  | removeNode node =>
      rcases Walked.mem allowed rep shape with ⟨entry, member, rfl⟩
      simp only [MapOp.run, MapOp.readEntry, ends_bind, ends_nodeKey rep shape member,
        ends_nodeVal rep shape member, ends_pure]
      refine ends_removeNode rep shape member ?_
      intro after changed later left right steps whole fewer
      refine ⟨changed, .of_sublist steps ?_⟩
      rw [whole, fewer]
      exact (List.sublist_cons_self entry right).append_left left
  | retain pred ctx =>
      have asks : Asks (fun key val ctx => pure (pred key val ctx)) pred (owned self table) heap :=
        fun key val ctx later _ => (ends_pure _ _ _).mpr ⟨rfl, rfl⟩
      simp only [MapOp.run, ends_bind]
      refine ends_retain rep shape asks ?_
      intro after changed later steps kept
      simp only [ends_pure]
      exact ⟨changed, .of_sublist steps (kept ▸ sift_sublist)⟩
  | clear =>
      simp only [MapOp.run, ends_bind]
      refine ends_clear rep shape ?_
      intro later steps
      simp only [ends_pure]
      refine ⟨_, .of_sublist steps ?_⟩
      rw [List.flatten_replicate_nil]
      exact List.nil_sublist _
  | reserve newCap =>
      simp only [MapOp.run]
      refine ends_reserve rep shape ?_ ?_
      · intro later same
        exact ⟨table, .of_perm (by rw [same]; exact Steps.refl rep shape) (List.Perm.refl _)⟩
      · intro after changed later steps perm _
        exact ⟨changed, .of_perm steps perm⟩
  | shrinkToFit =>
      simp only [MapOp.run]
      refine ends_shrinkToFit rep shape ?_
      intro st after changed later steps perm _
      exact ⟨changed, .of_perm steps perm⟩

end HMap

namespace HSet

open HMap

variable {heap later : HMapMem K V} {self after other : HMap K}
  {table changed others : HMapTable K V} {entry : HMapEntry K V} {key : K}

theorem ends_assertHSet (shape : Shape self table) (noVal : self.val.size = 0)
    {post : Unit -> HMapMem K V -> Prop} :
    Ends (assertHSet self) heap post <-> post () heap := by
  simp only [assertHSet, ends_bind, ends_require, shape.real, noVal, true_and]

/-! ## Operations of sets -/

theorem tends_run (op : SetOp K C) (rep : Rep heap.blocks self table) (shape : Shape self table)
    (allowed : op.Allowed self heap) :
    Ends (op.run self) heap (fun after later => exists changed,
      Tends heap later self after table changed) := by
  rcases allowed with ⟨noVal, allowed⟩
  have asserts : forall {later : HMapMem K V} {after : HMap K} {changed : HMapTable K V}
      {post : Unit -> HMapMem K V -> Prop}, Tends heap later self after table changed ->
      (Ends (assertHSet after) later post <-> post () later) :=
    fun tends => ends_assertHSet tends.steps.shape (tends.val_size noVal)
  cases op with
  | insert key =>
      simp only [SetOp.run, insert, ends_bind, ends_assertHSet shape noVal]
      refine ends_insert rep shape (Or.inr noVal) ?_
      intro out after changed later steps _ _ inserts
      have tends : Tends heap later self after table changed := ⟨steps, inserts.keyed⟩
      simp only [asserts tends, ends_pure]
      exact ⟨changed, tends⟩
  | extend src =>
      simp only [SetOp.run, extend, ends_bind, ends_assertHSet shape noVal, ends_require,
        show self.key = src.elem from allowed, true_and]
      refine ends_insertAll rep shape (fun _ _ => Or.inr noVal) ?_
      intro st after changed later steps inserts
      have tends : Tends heap later self after table changed := ⟨steps, inserts.keyed⟩
      simp only [asserts tends, ends_pure]
      exact ⟨changed, tends⟩
  | remove key =>
      simp only [SetOp.run, remove, ends_bind, ends_assertHSet shape noVal]
      refine ends_remove rep shape ?_
      intro out after changed later steps takes
      have tends : Tends heap later self after table changed :=
        .of_sublist steps (takes_sublist takes)
      simp only [asserts tends, ends_pure]
      exact ⟨changed, tends⟩
  | take key =>
      simp only [SetOp.run, take, ends_bind, ends_assertHSet shape noVal]
      refine ends_take rep shape ?_
      intro out after changed later steps takes
      have tends : Tends heap later self after table changed :=
        .of_sublist steps (takes_sublist takes)
      simp only [asserts tends, ends_pure]
      exact ⟨changed, tends⟩
  | removeNode node =>
      rcases Walked.mem allowed rep shape with ⟨entry, member, rfl⟩
      simp only [SetOp.run, removeNode, ends_bind, ends_assertHSet shape noVal]
      refine ends_removeNode rep shape member ?_
      intro after changed later left right steps whole fewer
      have tends : Tends heap later self after table changed := by
        refine .of_sublist steps ?_
        rw [whole, fewer]
        exact (List.sublist_cons_self entry right).append_left left
      simp only [asserts tends, ends_pure]
      exact ⟨changed, tends⟩
  | retain pred ctx =>
      have asks : Asks (V := V) (fun key _ ctx => pure (pred key ctx))
          (fun key _ ctx => pred key ctx) (owned self table) heap :=
        fun key val ctx later _ => (ends_pure _ _ _).mpr ⟨rfl, rfl⟩
      simp only [SetOp.run, retain, ends_bind, ends_assertHSet shape noVal]
      refine ends_retain rep shape asks ?_
      intro after changed later steps kept
      have tends : Tends heap later self after table changed :=
        .of_sublist steps (kept ▸ sift_sublist)
      simp only [asserts tends, ends_pure]
      exact ⟨changed, tends⟩
  | clear =>
      simp only [SetOp.run, clear, ends_bind, ends_assertHSet shape noVal]
      refine ends_clear rep shape ?_
      intro later steps
      have tends : Tends heap later self { self with len := 0 } table
          (List.replicate table.length []) := by
        refine .of_sublist steps ?_
        rw [List.flatten_replicate_nil]
        exact List.nil_sublist _
      simp only [asserts tends, ends_pure]
      exact ⟨_, tends⟩
  | reserve newCap =>
      simp only [SetOp.run, reserve, ends_bind, ends_assertHSet shape noVal]
      refine ends_reserve rep shape ?_ ?_
      · intro later same
        have tends : Tends heap later self self table table :=
          .of_perm (by rw [same]; exact Steps.refl rep shape) (List.Perm.refl _)
        simp only [asserts tends, ends_pure]
        exact ⟨table, tends⟩
      · intro after changed later steps perm _
        have tends : Tends heap later self after table changed := .of_perm steps perm
        simp only [asserts tends, ends_pure]
        exact ⟨changed, tends⟩
  | shrinkToFit =>
      simp only [SetOp.run, shrinkToFit, ends_bind, ends_assertHSet shape noVal]
      refine ends_shrinkToFit rep shape ?_
      intro st after changed later steps perm _
      have tends : Tends heap later self after table changed := .of_perm steps perm
      simp only [asserts tends, ends_pure]
      exact ⟨changed, tends⟩

/-! ## Operations on two sets -/

section Pair

variable (rep : Rep heap.blocks self table) (shape : Shape self table)
  (noVal : self.val.size = 0) (repO : Rep heap.blocks other others) (shapeO : Shape other others)
  (apart : forall addr, addr ∈ owned other others -> addr ∉ owned self table)

include rep shape repO shapeO apart

/-- The rule for a walk over `other` whose body tends `self`. -/
theorem tends_forEach {γ : Type} {body : Addr -> HMap K -> Run (HMapMem K V) (Run.Round (HMap K) γ)}
    {done : HMap K -> γ} {post : γ -> HMapMem K V -> Prop}
    (step : forall {h : HMapMem K V} {now : HMap K} {at_ : HMapTable K V} {entry : HMapEntry K V},
      Tends heap h self now table at_ -> Rep h.blocks other others -> entry ∈ others.flatten ->
      Ends (body entry.addr now) h (fun round later =>
        match round with
        | .again next => exists changed, Tends heap later self next table changed
        | .leave result => post result later))
    (finish : forall {h : HMapMem K V} {now : HMap K} {at_ : HMapTable K V},
      Tends heap h self now table at_ -> post (done now) h) :
    Ends (forEach other body done self) heap post := by
  refine ends_forEach shapeO (fun _ now h => exists at_, Tends heap h self now table at_)
    (fun _ _ _ ⟨_, tends⟩ => tends.others_stay repO apart) ?_
    (fun _ _ ⟨_, tends⟩ => finish tends) ⟨table, Tends.refl rep shape⟩
  rintro entry rest now h ⟨before, split⟩ ⟨at_, tends⟩
  have member : entry ∈ others.flatten := by
    rw [split]
    exact List.mem_append_right _ List.mem_cons_self
  refine (step tends (tends.others_stay repO apart) member).mono ?_
  intro round later
  cases round <;> exact id

theorem tends_removeAll : Ends (removeAll (V := V) self other) heap (fun after later =>
    exists changed, Tends heap later self after table changed) := by
  refine tends_forEach rep shape repO shapeO apart ?_ (fun tends => ⟨_, tends⟩)
  intro h now at_ entry tends repNow member
  simp only [ends_bind, ends_nodeKey repNow shapeO member]
  refine ends_remove tends.steps.rep tends.steps.shape ?_
  intro out after changed later steps takes
  simp only [ends_pure]
  exact ⟨changed, tends.trans (.of_sublist steps (takes_sublist takes))⟩

include noVal

theorem tends_uniteAll : Ends (uniteAll (V := V) self other) heap (fun result later =>
    exists changed, Tends heap later self result.2 table changed) := by
  refine tends_forEach rep shape repO shapeO apart ?_ (fun tends => ⟨_, tends⟩)
  intro h now at_ entry tends repNow member
  simp only [ends_bind, ends_nodeKey repNow shapeO member]
  refine ends_insert tends.steps.rep tends.steps.shape (Or.inr (tends.val_size noVal)) ?_
  rintro ⟨st, isNew⟩ after changed later steps _ _ inserts
  have more : Tends h later now after at_ changed := ⟨steps, inserts.keyed⟩
  cases st with
  | ok =>
      simp only [if_granted, ends_pure]
      exact ⟨changed, tends.trans more⟩
  | errNoMem =>
      simp only [if_refused, ends_pure]
      exact ⟨changed, tends.trans more⟩

theorem tends_flipAll : Ends (flipAll (V := V) self other) heap (fun result later =>
    exists changed, Tends heap later self result.2 table changed) := by
  refine tends_forEach rep shape repO shapeO apart ?_ (fun tends => ⟨_, tends⟩)
  intro h now at_ entry tends repNow member
  simp only [ends_bind, ends_nodeKey repNow shapeO member]
  refine ends_remove tends.steps.rep tends.steps.shape ?_
  rintro ⟨removed, out⟩ after changed later steps takes
  have dropped := tends.trans (.of_sublist steps (takes_sublist takes))
  cases removed with
  | true =>
      simp only [if_true, ends_pure]
      exact ⟨changed, dropped⟩
  | false =>
      simp only [Bool.false_eq_true, if_false, ends_bind]
      refine ends_insert dropped.steps.rep dropped.steps.shape
        (Or.inr (dropped.val_size noVal)) ?_
      rintro ⟨st, isNew⟩ final latest last stepsMore _ _ inserts
      have more : Tends later last after final changed latest := ⟨stepsMore, inserts.keyed⟩
      cases st with
      | ok =>
          simp only [if_granted, ends_pure]
          exact ⟨latest, dropped.trans more⟩
      | errNoMem =>
          simp only [if_refused, ends_pure]
          exact ⟨latest, dropped.trans more⟩

omit rep shape noVal in
/-- The predicates over `other` answer by a lookup in its table. -/
theorem asks_heldBy : Asks (heldBy (V := V) other)
    (fun key _ _ => ((entryFor other others key).isSome, ())) (owned self table) heap := by
  intro key val ctx later same
  have repNow : Rep later.blocks other others :=
    repO.congr fun addr mine => same addr (apart addr mine)
  simp only [heldBy, ends_bind]
  refine ends_contains repNow shapeO ?_
  exact (ends_pure _ _ _).mpr ⟨rfl, rfl⟩

omit rep shape noVal in
theorem asks_notHeldBy : Asks (notHeldBy (V := V) other)
    (fun key _ _ => (!(entryFor other others key).isSome, ())) (owned self table) heap := by
  intro key val ctx later same
  have repNow : Rep later.blocks other others :=
    repO.congr fun addr mine => same addr (apart addr mine)
  simp only [notHeldBy, ends_bind]
  refine ends_contains repNow shapeO ?_
  exact (ends_pure _ _ _).mpr ⟨rfl, rfl⟩

theorem tends_pair (op : PairOp) : Ends (op.run (V := V) self other) heap (fun after later =>
    exists changed, Tends heap later self after table changed) := by
  have asserts : forall {later : HMapMem K V} {after : HMap K} {changed : HMapTable K V}
      {post : Unit -> HMapMem K V -> Prop}, Tends heap later self after table changed ->
      (Ends (assertHSet after) later post <-> post () later) :=
    fun tends => ends_assertHSet tends.steps.shape (tends.val_size noVal)
  cases op with
  | union =>
      simp only [PairOp.run, union, ends_bind]
      refine (tends_uniteAll rep shape noVal repO shapeO apart).mono ?_
      rintro ⟨st, after⟩ later ⟨changed, tends⟩
      simp only [asserts tends, ends_pure]
      exact ⟨changed, tends⟩
  | intersection =>
      simp only [PairOp.run, intersection, ends_bind]
      refine ends_retain rep shape (asks_heldBy repO shapeO apart) ?_
      intro after changed later steps kept
      have tends : Tends heap later self after table changed :=
        .of_sublist steps (kept ▸ sift_sublist)
      simp only [asserts tends, ends_pure]
      exact ⟨changed, tends⟩
  | difference =>
      simp only [PairOp.run, difference]
      by_cases shorter : other.len < self.len
      · simp only [if_pos shorter, ends_bind]
        refine (tends_removeAll rep shape repO shapeO apart).mono ?_
        rintro after later ⟨changed, tends⟩
        simp only [asserts tends, ends_pure]
        exact ⟨changed, tends⟩
      · simp only [if_neg shorter, ends_bind]
        refine ends_retain rep shape (asks_notHeldBy repO shapeO apart) ?_
        intro after changed later steps kept
        have tends : Tends heap later self after table changed :=
          .of_sublist steps (kept ▸ sift_sublist)
        simp only [asserts tends, ends_pure]
        exact ⟨changed, tends⟩
  | symmetricDifference =>
      simp only [PairOp.run, symmetricDifference, ends_bind]
      refine (tends_flipAll rep shape noVal repO shapeO apart).mono ?_
      rintro ⟨st, after⟩ later ⟨changed, tends⟩
      simp only [asserts tends, ends_pure]
      exact ⟨changed, tends⟩

end Pair

end HSet
end TerseDsa
