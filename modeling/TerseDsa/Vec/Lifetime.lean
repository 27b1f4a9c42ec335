import TerseDsa.Vec.Editing

namespace TerseDsa

open Foundation Run

/-!
# Making, copying and releasing vecs

A constructor either builds a vec over a block of its own, or leaves no trace.
A block may also be handed out with `into_raw`, and be taken over again.
-/

namespace Vec

variable {α S : Type} {heap : VecMem α} {self : Vec} {elems rest : List α}

/-- A vec that was built over a block of its own. -/
structure Born (before later : Blocks AlTag (List (Option α))) (vec : Vec) (elems : List α) (elem : Layout)
    (al : Al) : Prop where
  holds : Holds later vec elems
  evolves : Evolves before later [] vec.data.toList
  elem : vec.elem = elem
  al : vec.al = al

section Building

variable {elem : Layout} {al : Al} {cap len : Nat}

theorem ends_init (isType : elem.isType = true) (real : al.isSome = true) {s : S} {post : Vec -> S -> Prop} :
    Ends (init elem al) s post <-> post ⟨none, 0, 0, elem, al⟩ s := by
  simp only [init, ends_bind, ends_require, isType, real, true_and, ends_pure]

/-- The block of a vec that was just built, of `cap` cells that are all alike. -/
theorem ends_initImpl {fill : Option α} (isType : elem.isType = true) (real : al.isSome = true) (load : len ≤ cap)
    {post : Status × Option Vec -> VecMem α -> Prop}
    (refused : heap.Spared (post (.errNoMem, none)))
    (done : forall (data : Option Addr) (later : VecMem α),
      Cells later.blocks ⟨data, len, cap, elem, al⟩ (List.replicate cap fill) ->
      Evolves heap.blocks later.blocks [] data.toList -> post (.ok, some ⟨data, len, cap, elem, al⟩) later) :
    Ends (initImpl fill len cap elem al) heap post := by
  simp only [initImpl, ends_bind, ends_require, load, true_and, ends_init isType real]
  by_cases room : cap > 0
  · rw [if_pos room]
    rcases elem.ckdArray_cases cap with ⟨overflow, _⟩ | ⟨layout, fits⟩
    · simp only [overflow, ends_pure]
      exact refused heap rfl
    · simp only [layout, ends_bind]
      apply Owns.ends_alloc real room
      · intro later same
        exact (ends_pure _ _ _).mpr (refused later same)
      · intro ptr later owns evolves
        have held : Cells later.blocks ⟨some ptr, len, cap, elem, al⟩ (List.replicate cap fill) :=
          ⟨real, isType, fits, List.length_replicate, owns⟩
        simp only [ends_bind, ends_assertVec (held.asserts load), ends_pure]
        exact done _ later held evolves
  · have none_ : cap = 0 := Nat.eq_zero_of_not_pos room
    subst none_
    have empty : len = 0 := Nat.le_zero.mp load
    subst empty
    have held : Cells heap.blocks ⟨none, 0, 0, elem, al⟩ (List.replicate 0 fill) :=
      ⟨real, isType, Nat.two_pow_pos 64, rfl, Or.inl ⟨rfl, rfl⟩⟩
    simp only [if_neg room, ends_bind, ends_assertVec (held.asserts load), ends_pure]
    exact done none heap held (Evolves.refl _ _)

theorem ends_initLen {zero : α} (isType : elem.isType = true) (real : al.isSome = true)
    {post : Status × Option Vec -> VecMem α -> Prop}
    (refused : heap.Spared (post (.errNoMem, none)))
    (done : forall (vec : Vec) (later : VecMem α),
      Born heap.blocks later.blocks vec (List.replicate len zero) elem al -> post (.ok, some vec) later) :
    Ends (initLen zero len elem al) heap post := by
  apply ends_initImpl isType real (Nat.le_refl len) refused
  intro data later held evolves
  refine done _ later ⟨⟨⟨[], ?_⟩, List.length_replicate.symm⟩, evolves, rfl, rfl⟩
  rw [List.map_replicate, List.append_nil]
  exact held

theorem ends_initCap (isType : elem.isType = true) (real : al.isSome = true)
    {post : Status × Option Vec -> VecMem α -> Prop}
    (refused : heap.Spared (post (.errNoMem, none)))
    (done : forall (vec : Vec) (later : VecMem α), Born heap.blocks later.blocks vec ([] : List α) elem al ->
      post (.ok, some vec) later) :
    Ends (initCap α cap elem al) heap post := by
  apply ends_initImpl isType real (Nat.zero_le cap) refused
  intro data later held evolves
  exact done _ later ⟨⟨⟨_, held⟩, rfl⟩, evolves, rfl, rfl⟩

/-- The elems are read once the block is there, which has not changed them. -/
theorem ends_fromImpl {data : Nat -> Run (VecMem α) (List α)} {vals : List α} (isType : elem.isType = true)
    (real : al.isSome = true) {post : Status × Option Vec -> VecMem α -> Prop}
    (reads : forall mid : VecMem α, (forall addr, heap.blocks addr ≠ none -> mid.blocks addr = heap.blocks addr) ->
      vals ≠ [] -> forall post : List α -> VecMem α -> Prop,
        Ends (data (wrapMul vals.length elem.size)) mid post <-> post vals mid)
    (refused : heap.Spared (post (.errNoMem, none)))
    (done : forall (vec : Vec) (later : VecMem α), Born heap.blocks later.blocks vec vals elem al ->
      post (.ok, some vec) later) :
    Ends (fromImpl data vals.length elem al) heap post := by
  simp only [fromImpl, ends_bind]
  apply ends_initImpl isType real (Nat.le_refl _)
  · intro later same
    simp only [if_refused, ends_pure]
    exact refused later same
  · intro block mid held evolves
    simp only [if_granted, ends_bind, ends_demand_some]
    by_cases some_ : vals.length > 0
    · have nonempty : vals ≠ [] := List.ne_nil_of_length_pos some_
      have still : forall addr, heap.blocks addr ≠ none -> mid.blocks addr = heap.blocks addr :=
        fun addr live => evolves.keeps List.not_mem_nil live
      have whole : Cells mid.blocks ⟨block, vals.length, vals.length, elem, al⟩
          ([] ++ List.replicate vals.length none ++ []) := by
        rw [List.nil_append, List.append_nil]
        exact held
      simp only [if_pos some_, ends_bind, lenBytes, reads mid still nonempty]
      apply ends_writeElems whole List.length_replicate.symm nonempty rfl rfl
      intro later rewrites
      rw [List.nil_append] at rewrites
      have tends := rewrites.tends_same rfl
      exact (ends_pure _ _ _).mpr (done _ later ⟨tends.holds, evolves.trans tends.evolves, rfl, rfl⟩)
    · have none_ : vals = [] := List.eq_nil_of_length_eq_zero (Nat.eq_zero_of_not_pos some_)
      subst none_
      rw [if_neg some_]
      exact (ends_pure _ _ _).mpr (done _ mid ⟨⟨⟨_, held⟩, rfl⟩, evolves, rfl, rfl⟩)

theorem ends_fromData {data : List α} (isType : elem.isType = true) (real : al.isSome = true)
    {post : Status × Option Vec -> VecMem α -> Prop}
    (refused : heap.Spared (post (.errNoMem, none)))
    (done : forall (vec : Vec) (later : VecMem α), Born heap.blocks later.blocks vec data elem al ->
      post (.ok, some vec) later) :
    Ends (fromData data elem al) heap post :=
  ends_fromImpl isType real (fun _ _ _ _ => ends_pure _ _ _) refused done

theorem ends_copyWith (holds : Holds heap.blocks self elems) (real : al.isSome = true)
    {post : Status × Option Vec -> VecMem α -> Prop}
    (refused : heap.Spared (post (.errNoMem, none)))
    (done : forall (vec : Vec) (later : VecMem α), Born heap.blocks later.blocks vec elems self.elem al ->
      post (.ok, some vec) later) :
    Ends (copyWith α self al) heap post := by
  have asserts := holds.span_holds
  simp only [copyWith, ends_bind, ends_assertVec holds.asserts, ends_require, real, true_and,
    ends_toSpan holds, Span.ends_assertSpan (Span.Over.asserts asserts)]
  have len : (span self).len = elems.length := holds.len
  rw [len]
  apply ends_fromImpl asserts.isType real _ refused done
  intro mid same nonempty post'
  have still : Holds mid.blocks self elems := holds.congr fun addr mine => same addr (holds.live mine)
  rcases still.cells with ⟨spare, held⟩
  have whole : Cells mid.blocks self ([] ++ elems.map some ++ spare) := held
  exact ends_readElems whole nonempty rfl rfl

end Building

theorem ends_deinit_inert {post : Vec -> VecMem α -> Prop} :
    Ends (deinit α inert) heap post <-> post inert heap := by
  have none_ : inert.al = none := rfl
  have bare : inert.data = none := rfl
  simp only [deinit, if_pos none_, ends_bind, ends_require, bare, true_and, ends_pure]

theorem ends_deinit (holds : Holds heap.blocks self elems) {post : Vec -> VecMem α -> Prop}
    (done : forall later : VecMem α, Evolves heap.blocks later.blocks self.data.toList [] -> post inert later) :
    Ends (deinit α self) heap post := by
  rcases holds.cells with ⟨spare, held⟩
  have real : self.al ≠ none := Option.isSome_iff_ne_none.mp held.real
  simp only [deinit, if_neg real, ends_bind, ends_assertVec holds.asserts, blockLayout_eq held]
  apply held.owns.ends_dealloc held.real held.size_pos
  intro later gone
  exact (ends_pure _ _ _).mpr (done later gone)

/-- The contents of another vec over those of this one. -/
theorem ends_copyOver {other : Vec} (holds : Holds heap.blocks self elems) (source : Holds heap.blocks other rest)
    (sameElem : self.elem = other.elem) (apart : forall addr, addr ∈ other.data.toList -> addr ∉ self.data.toList)
    {post : Status × Vec -> VecMem α -> Prop}
    (refused : heap.Spared (post (.errNoMem, self)))
    (done : forall (after : Vec) (later : VecMem α), Tends heap.blocks later.blocks self after rest ->
      post (.ok, after) later) :
    Ends (copyOver α self other) heap post := by
  simp only [copyOver, ends_bind]
  apply ends_reserve holds
  · intro later same
    simp only [if_refused, ends_pure]
    exact refused later same
  · intro grown mid tends room _
    have untouched : forall addr, addr ∈ other.data.toList -> mid.blocks addr = heap.blocks addr :=
      fun addr mine => tends.evolves.keeps (apart addr mine) (source.live mine)
    have still : Holds mid.blocks other rest := source.congr untouched
    have len := source.len
    simp only [if_granted]
    by_cases some_ : other.len > 0
    · have nonempty : rest ≠ [] := List.ne_nil_of_length_pos (by omega)
      have different : grown.data ≠ other.data := by
        intro same
        have full : other.cap ≠ 0 := by
          have load := source.load
          omega
        rcases Option.ne_none_iff_exists'.mp (mt source.bare.mp full) with ⟨addr, at_⟩
        have there : addr ∈ other.data.toList := by
          rw [at_]
          exact List.mem_singleton_self addr
        have alsoMine : addr ∈ grown.data.toList := by
          rw [same]
          exact there
        exact source.live there (tends.evolves.fresh addr alsoMine (apart addr there))
      rcases still.cells with ⟨spareOther, heldOther⟩
      rcases tends.holds.cells with ⟨spare, held⟩
      have wholeOther : Cells mid.blocks other ([] ++ rest.map some ++ spareOther) := heldOther
      have total := held.length
      have more : rest.length = ((elems.map some ++ spare).take rest.length).length := by
        rw [List.length_take]
        omega
      have whole : Cells mid.blocks grown
          ([] ++ (elems.map some ++ spare).take rest.length ++ (elems.map some ++ spare).drop rest.length) := by
        rw [List.nil_append, List.take_append_drop]
        exact held
      have layout : other.elem.size = grown.elem.size := by
        rw [tends.elem, sameElem]
      have start : 0 = ([] : List (Option α)).length := rfl
      simp only [if_pos some_, ends_bind, ends_require, ne_eq, different, not_false_eq_true, true_and, lenBytes,
        ends_readElems wholeOther nonempty start len]
      rw [layout]
      apply ends_writeElems whole more nonempty start len
      intro later rewrites
      rw [List.nil_append] at rewrites
      have now := tends.trans (rewrites.tends len)
      simp only [ends_assertVec now.holds.asserts, ends_pure]
      exact done _ later now
    · have none_ : rest = [] := List.eq_nil_of_length_eq_zero (by omega)
      subst none_
      have whole : Holds mid.blocks grown ([] ++ elems) := tends.holds
      have now := tends.trans (whole.shorten len)
      simp only [if_neg some_, ends_bind, ends_assertVec now.holds.asserts, ends_pure]
      exact done _ mid now

/-! ## Raw blocks -/

/-- The block is handed out, and the vec forgets it. -/
theorem ends_intoRaw {blocks : Blocks AlTag (List (Option α))} (holds : Holds blocks self elems) {s : S}
    {post : RawElems × Nat × Vec -> S -> Prop} :
    Ends (intoRaw self) s post <-> post (⟨self.data, self.len, self.elem⟩, self.cap, inert) s := by
  simp only [intoRaw, ends_bind, ends_assertVec holds.asserts, ends_toSpan holds, ends_pure]
  rfl

/-- A vec takes over what a vec on the same allocator has handed out. -/
theorem ends_initRaw {blocks : Blocks AlTag (List (Option α))} (holds : Holds blocks self elems) {s : S}
    {post : Vec -> S -> Prop} :
    Ends (initRaw ⟨self.data, self.len, self.elem⟩ self.cap self.al) s post <-> post self s := by
  rcases holds.cells with ⟨spare, held⟩
  rcases holds.asserts with ⟨isType, load, some_, _, real⟩
  have present : self.data.isSome = true ∨ self.len = 0 := by
    rcases some_ with none_ | some_
    · exact Or.inr (by omega)
    · exact Or.inl some_
  have fits : (self.elem.ckdArray self.cap).isSome = true := by
    rcases self.elem.ckdArray_cases self.cap with ⟨_, overflow⟩ | ⟨layout, _⟩
    · exact absurd held.fits (Nat.not_lt.mpr overflow)
    · rw [layout]
      rfl
  simp only [initRaw, ends_bind, ends_require, present, isType, real, load, holds.bare, fits, and_self, true_and,
    ends_pure]

end Vec
end TerseDsa
