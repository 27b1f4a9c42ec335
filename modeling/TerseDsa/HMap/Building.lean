import TerseDsa.HMap.Release

namespace TerseDsa

open Foundation Run

/-!
# Building maps

`init_raw`, `from_spans` and `copy_with` build a map in a local object and
write it to `out` only when everything was granted.  Until then the object is
the only owner of what was allocated, and on a refusal it is deinitialised, so
that the heap is left with the blocks it had.
-/

namespace HMap

variable {K V C : Type} {heap : HMapMem K V} {self after : HMap K}
  {table changed : HMapTable K V} {entry : HMapEntry K V} {key val : Layout}
  {hasher : K -> Hash} {eq : K -> K -> Bool} {al : Al}

/-- The map over `table` was built out of nothing: all its blocks are fresh. -/
structure Born (blocks later : Blocks AlTag (HMapCell K V)) (map : HMap K)
    (table : HMapTable K V) : Prop where
  rep : Rep later map table
  shape : Shape map table
  evolves : Evolves blocks later [] (owned map table)

theorem Born.trans {blocks later last : Blocks AlTag (HMapCell K V)}
    (born : Born blocks later self table) (steps : Steps later last self after table changed) :
    Born blocks last after changed :=
  ⟨steps.rep, steps.shape, born.evolves.trans steps.evolves⟩

theorem Born.others {blocks later : Blocks AlTag (HMapCell K V)} {other : HMap K}
    {others : HMapTable K V} (born : Born blocks later self table)
    (rep : Rep blocks other others) : Rep later other others :=
  rep.congr fun _ mine => born.evolves.keeps List.not_mem_nil (rep.live mine)

/-- Given back, a map that was built leaves no trace. -/
theorem Born.undo {blocks later last : Blocks AlTag (HMapCell K V)}
    (born : Born blocks later self table) (gone : Evolves later last (owned self table) []) :
    last = blocks :=
  (born.evolves.trans gone).eq_of_nil

/-! ## Reserving -/

theorem ends_reserve (rep : Rep heap.blocks self table) (shape : Shape self table)
    {cap : Nat} {post : Status × HMap K -> HMapMem K V -> Prop}
    (refused : heap.Spared (post (.errNoMem, self)))
    (done : forall (after : HMap K) (changed : HMapTable K V) (later : HMapMem K V),
      Steps heap.blocks later.blocks self after table changed ->
      changed.flatten.Perm table.flatten -> max cap self.bucketCount ≤ after.bucketCount ->
      post (.ok, after) later) :
    Ends (reserve self cap) heap post := by
  simp only [reserve, ends_bind, ends_assertHMap (shape.asserts rep)]
  refine ends_reserveBuckets rep shape ?_ ?_ ?_
  · intro enough
    simp only [ends_assertHMap (shape.asserts rep), ends_pure]
    exact done self table heap (Steps.refl rep shape) (List.Perm.refl _) (by omega)
  · intro later same _
    simp only [ends_assertHMap (shape.asserts rep), ends_pure]
    exact refused later same
  · intro after changed later steps less enough perm
    simp only [ends_assertHMap steps.asserts, ends_pure]
    exact done after changed later steps perm (by omega)

/-! ## Empty maps -/

/-- What `init_raw` asks of its arguments: two layouts of types, or a value of
size 0, an allocator, and a node that does not overflow. -/
structure Buildable (key val : Layout) (al : Al) (node : Layout) (keyOffset valOffset : Nat) :
    Prop where
  keyType : key.isType = true
  valType : val.isType = true ∨ (val.size = 0 ∧ Layout.isAlign val.align = true)
  real : al.isSome = true
  layout : nodeLayout key val = some (node, keyOffset, valOffset)

/-- A map without buckets, over the given callbacks and allocator. -/
def bare (key val node : Layout) (keyOffset valOffset : Nat) (hasher : K -> Hash)
    (eq : K -> K -> Bool) (al : Al) : HMap K :=
  { buckets := none, bucketCount := 0, len := 0, key, val, keyOffset, valOffset, node, hasher, eq,
    al }

theorem ends_initRaw {node : Layout} {keyOffset valOffset cap : Nat}
    (buildable : Buildable key val al node keyOffset valOffset)
    {post : Status × Option (HMap K) -> HMapMem K V -> Prop}
    (refused : 0 < cap -> heap.Spared (post (.errNoMem, none)))
    (built : forall (map : HMap K) (table : HMapTable K V) (later : HMapMem K V),
      Born heap.blocks later.blocks map table -> table.flatten = [] -> cap ≤ map.bucketCount ->
      forgetBuckets map = bare key val node keyOffset valOffset hasher eq al ->
      post (.ok, some map) later) :
    Ends (initRaw cap key val hasher eq al) heap post := by
  have shape : Shape (bare key val node keyOffset valOffset hasher eq al)
      ([] : HMapTable K V) :=
    ⟨buildable.real, buildable.keyType, buildable.valType, buildable.layout, rfl, Or.inl rfl,
      (fun _ _ impossible => by cases impossible), rfl, Nat.le_refl _⟩
  have rep : Rep heap.blocks (bare key val node keyOffset valOffset hasher eq al) [] :=
    Rep.empty rfl
  have born : Born heap.blocks heap.blocks (bare key val node keyOffset valOffset hasher eq al)
      [] := ⟨rep, shape, Evolves.refl _ _⟩
  simp only [initRaw, ends_bind, ends_require, buildable.keyType, buildable.valType,
    buildable.real, buildable.layout, ends_demand_some, true_and]
  change Ends (if cap > 0 then _ else _) heap post
  by_cases some_ : cap > 0
  · simp only [if_pos some_, ends_bind]
    refine ends_reserve rep shape ?_ ?_
    · intro later same
      simp only [if_refused, ends_pure]
      exact refused some_ later same
    · intro after changed later steps perm enough
      simp only [if_granted, ends_bind,
        ends_assertHMap steps.asserts, ends_pure]
      exact built after changed later (born.trans steps) (List.Perm.eq_nil perm) (by omega)
        steps.kind
  · simp only [if_neg some_, ends_bind]
    refine (ends_assertHMap (shape.asserts rep)).mpr ?_
    simp only [ends_pure]
    exact built _ [] heap born rfl (by omega) rfl

theorem ends_initCap {node : Layout} {keyOffset valOffset cap : Nat}
    (buildable : Buildable key val al node keyOffset valOffset) (valType : val.isType = true)
    {post : Status × Option (HMap K) -> HMapMem K V -> Prop}
    (refused : 0 < cap -> heap.Spared (post (.errNoMem, none)))
    (built : forall (map : HMap K) (table : HMapTable K V) (later : HMapMem K V),
      Born heap.blocks later.blocks map table -> table.flatten = [] -> cap ≤ map.bucketCount ->
      forgetBuckets map = bare key val node keyOffset valOffset hasher eq al ->
      post (.ok, some map) later) :
    Ends (initCap cap key val hasher eq al) heap post := by
  simp only [initCap, ends_bind, ends_require, valType, true_and]
  exact ends_initRaw buildable refused built

theorem ends_init {node : Layout} {keyOffset valOffset : Nat}
    (buildable : Buildable key val al node keyOffset valOffset) (valType : val.isType = true)
    {post : HMap K -> HMapMem K V -> Prop}
    (built : forall (map : HMap K) (table : HMapTable K V) (later : HMapMem K V),
      Born heap.blocks later.blocks map table -> table.flatten = [] ->
      forgetBuckets map = bare key val node keyOffset valOffset hasher eq al ->
      post map later) :
    Ends (init key val hasher eq al) heap post := by
  simp only [init, ends_bind, ends_require, valType, true_and]
  refine ends_initRaw buildable (fun impossible => absurd impossible (Nat.lt_irrefl 0)) ?_
  intro map table later born empty _ kind
  simp only [ends_demand_some, true_and]
  exact built map table later born empty kind

/-! ## From spans -/

theorem ends_fromSpans {keys : SpanView K} {vals : SpanView V} {node : Layout}
    {keyOffset valOffset : Nat}
    (buildable : Buildable keys.elem vals.elem al node keyOffset valOffset)
    (valType : vals.elem.isType = true) (sameLen : keys.len = vals.len)
    {post : Status × Option (HMap K) -> HMapMem K V -> Prop}
    (refused : heap.Spared (post (.errNoMem, none)))
    (built : forall (map : HMap K) (table : HMapTable K V) (later : HMapMem K V),
      Born heap.blocks later.blocks map table ->
      forgetBuckets map = bare keys.elem vals.elem node keyOffset valOffset hasher eq al ->
      InsertsAll map (keys.elems.zip (vals.elems.map some)) [] .ok table.flatten ->
      post (.ok, some map) later) :
    Ends (fromSpans keys vals hasher eq al) heap post := by
  simp only [fromSpans, ends_bind, ends_require, sameLen, true_and]
  refine ends_initCap buildable valType ?_ ?_
  · intro _ later same
    simp only [if_refused, ends_pure]
    exact refused later same
  · intro map table later born empty _ kind
    simp only [if_granted, ends_bind, ends_demand_some]
    have sameKeys : map.key = keys.elem := (congrArg HMap.key kind :)
    have sameVals : map.val = vals.elem := (congrArg HMap.val kind :)
    refine ends_extend born.rep born.shape sameKeys sameVals sameLen ?_
    intro st after changed last steps inserts
    have grown := born.trans steps
    cases st with
    | ok =>
        simp only [if_granted, ends_pure]
        refine built after changed last grown (steps.kind.trans kind) ?_
        rw [← empty]
        exact inserts.congr steps.kind.symm
    | errNoMem =>
        simp only [if_refused, ends_bind]
        refine ends_deinit grown.rep grown.shape ?_
        intro final gone
        simp only [ends_pure]
        exact refused final (grown.undo gone)

/-! ## Copies -/

/-- What a copy of the entry has in common with it. -/
def copied (self : HMap K) (entry : HMapEntry K V) : Hash × K × Option V :=
  (entry.hash, entry.key, if self.val.size > 0 then entry.val else none)

/-- In the midst of `copy_with`: the entries `done` have copies in the object,
which is otherwise over the same callbacks and layouts as the source. -/
structure Copying (blocks later : Blocks AlTag (HMapCell K V)) (map obj : HMap K)
    (table : HMapTable K V) (al : Al) (done : List (HMapEntry K V)) : Prop where
  born : Born blocks later obj table
  kind : forgetBuckets obj = { forgetBuckets map with al := al }
  perm : (table.flatten.map (copied map)).Perm (done.map (copied map))

/-- The walk that copies node by node: it fails with part of the copy built, or
ends with all of it. -/
theorem ends_copyNodes {obj : HMap K} {copy : HMapTable K V}
    (rep : Rep heap.blocks self table) (shape : Shape self table) {start : HMapMem K V}
    (copying : Copying heap.blocks start.blocks self obj copy al [])
    {post : Status × HMap K -> HMapMem K V -> Prop}
    (refused : forall (after : HMap K) (changed : HMapTable K V) (later : HMapMem K V),
      Born heap.blocks later.blocks after changed -> post (.errNoMem, after) later)
    (copied_ : forall (after : HMap K) (changed : HMapTable K V) (later : HMapMem K V),
      Copying heap.blocks later.blocks self after changed al table.flatten ->
      post (.ok, after) later) :
    Ends (copyNodes (V := V) self obj) start post := by
  simp only [copyNodes, ends_bind]
  refine ends_firstFrom (copying.born.others rep) shape ?_
  refine ends_loop (fun n vars h => exists (before rest : List (HMapEntry K V))
      (changed : HMapTable K V), rest.length = n ∧ table.flatten = before ++ rest ∧
      vars.1 = (addrs rest).head? ∧ Copying heap.blocks h.blocks self vars.2 changed al before)
    ?_ (n := table.flatten.length)
    ⟨[], table.flatten, copy, rfl, rfl, rfl, copying⟩ (by rw [shape.len]; omega)
  rintro n ⟨ptr, now⟩ h ⟨before, rest, changed, count, split, rfl, copying⟩
  cases rest with
  | nil =>
      rw [List.append_nil] at split
      simp only [addrs_nil, List.head?_nil, ends_pure]
      exact copied_ now changed h (split ▸ copying)
  | cons entry rest =>
      have here : entry ∈ table.flatten := by
        rw [split]
        exact List.mem_append_right _ List.mem_cons_self
      simp only [addrs_cons, List.head?_cons, ends_bind,
        ends_readNode ((copying.born.others rep).holds entry here), nodeOf]
      refine ends_addNode copying.born.rep copying.born.shape ?_ ?_
      · intro after final later steps _ _
        simp only [if_refused, ends_pure]
        exact refused after final later (copying.born.trans steps)
      · intro added after final later steps _ perm sameHash sameKey sameVal
        have grown := copying.born.trans steps
        have vals : now.val = self.val := (congrArg HMap.val copying.kind :)
        simp only [if_granted, ends_bind]
        refine ends_nextNode (grown.others rep) shape split ?_
        simp only [ends_pure]
        refine ⟨rest.length, by rw [← count]; exact Nat.lt_succ_self _, before ++ [entry], rest,
          final, rfl, by rw [split, List.append_assoc, List.singleton_append], rfl, grown,
          steps.kind.trans copying.kind, ?_⟩
        have sameCopy : copied self added = copied self entry := by
          unfold copied
          rw [sameHash, sameKey, sameVal, vals]
          split <;> rfl
        rw [List.map_append, List.map_singleton]
        refine (perm.map (copied self)).trans ?_
        rw [List.map_cons, sameCopy]
        exact (copying.perm.cons _).trans (List.perm_append_singleton _ _).symm

theorem Shape.buildable (shape : Shape self table) (real : al.isSome = true) :
    Buildable self.key self.val al self.node self.keyOffset self.valOffset :=
  ⟨shape.keyType, shape.valType, real, shape.layout⟩

/-- `copy_with` is refused without a trace, or gives a map of its own blocks
with a copy of every entry. -/
theorem ends_copyWith (rep : Rep heap.blocks self table) (shape : Shape self table)
    (real : al.isSome = true) {post : Status × Option (HMap K) -> HMapMem K V -> Prop}
    (refused : heap.Spared (post (.errNoMem, none)))
    (copied_ : forall (map : HMap K) (changed : HMapTable K V) (later : HMapMem K V),
      Copying heap.blocks later.blocks self map changed al table.flatten ->
      post (.ok, some map) later) :
    Ends (copyWith (V := V) self al) heap post := by
  simp only [copyWith, ends_bind, ends_assertHMap (shape.asserts rep)]
  refine ends_initRaw (shape.buildable real) ?_ ?_
  · intro _ later same
    simp only [if_refused, ends_pure]
    exact refused later same
  · intro obj copy later born empty _ kind
    simp only [if_granted, ends_bind, ends_demand_some]
    refine ends_copyNodes rep shape ⟨born, kind, by rw [empty]⟩ ?_ ?_
    · intro after changed last grown
      simp only [if_refused, ends_bind]
      refine ends_deinit grown.rep grown.shape ?_
      intro final gone
      simp only [ends_pure]
      exact refused final (grown.undo gone)
    · intro after changed last copying
      simp only [if_granted, ends_pure]
      exact copied_ after changed last copying

end HMap
end TerseDsa
