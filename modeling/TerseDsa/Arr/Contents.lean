import TerseDsa.Arr.Model
import TerseDsa.Vec.Lifetime

namespace TerseDsa

open Foundation Run

/-!
# What an arr holds

An arr is a vec that is full: its block has a cell for each elem and no other.
What is known of vecs is read off for arrs in this way.
-/

namespace Arr

variable {α S : Type} {heap : ArrMem α} {blocks later last : Blocks AlTag (List (Option α))} {self after : Arr}
  {elems rest vals : List α} {cells : List (Option α)} {idx : Nat} {val : α}

/-- The arr as a vec without room. -/
def full (self : Arr) : Vec := ⟨self.data, self.len, self.len, self.elem, self.al⟩

/-- The elems of the arr. -/
abbrev Holds (blocks : Blocks AlTag (List (Option α))) (arr : Arr) (elems : List α) : Prop :=
  Vec.Holds blocks (full arr) elems

/-- From one arr to another on the same allocator. -/
abbrev Tends (blocks later : Blocks AlTag (List (Option α))) (arr after : Arr) (elems : List α) : Prop :=
  Vec.Tends blocks later (full arr) (full after) elems

/-- An arr that was built over a block of its own. -/
abbrev Born (before later : Blocks AlTag (List (Option α))) (arr : Arr) (elems : List α) (elem : Layout) (al : Al) :
    Prop :=
  Vec.Born before later (full arr) elems elem al

/-- There is a cell for each elem and no other. -/
theorem Holds.whole (holds : Holds blocks self elems) : Vec.Cells blocks (full self) (elems.map some) := by
  rcases Vec.Holds.cells holds with ⟨spare, held⟩
  have length := held.length
  have len : (full self).cap = elems.length := Vec.Holds.len holds
  rw [List.length_append, List.length_map, len] at length
  have none_ : spare = [] := List.eq_nil_of_length_eq_zero (by omega)
  subst none_
  rwa [List.append_nil] at held

theorem Holds.of_cells (held : Vec.Cells blocks (full self) (elems.map some)) (len : self.len = elems.length) :
    Holds blocks self elems := by
  refine ⟨⟨[], ?_⟩, len⟩
  rw [List.append_nil]
  exact held

theorem asserts_full (asserts : (full self).Asserts) : self.Asserts :=
  ⟨asserts.1, asserts.2.2.1, asserts.2.2.2.1, asserts.2.2.2.2⟩

theorem ends_assertArr (asserts : (full self).Asserts) {s : S} {post : Unit -> S -> Prop} :
    Ends (assertArr self) s post <-> post () s := by
  simp only [assertArr, ends_require, asserts_full asserts, true_and]

theorem Holds.ends_assertArr (holds : Holds blocks self elems) {s : S} {post : Unit -> S -> Prop} :
    Ends (assertArr self) s post <-> post () s :=
  Arr.ends_assertArr holds.asserts

/-! ## The block -/

theorem ends_readElems (holds : Holds heap.blocks self elems) (some_ : elems ≠ []) {post : List α -> ArrMem α -> Prop} :
    Ends (readElems self (wrapMul elems.length self.elem.size)) heap post <-> post elems heap := by
  have held : Vec.Cells heap.blocks (full self) ([] ++ elems.map some ++ []) := by
    rw [List.nil_append, List.append_nil]
    exact holds.whole
  exact Vec.ends_readElems held some_ rfl rfl

theorem ends_writeElems (held : Vec.Cells heap.blocks (full self) cells) (length : vals.length = cells.length)
    (some_ : vals ≠ []) {post : Unit -> ArrMem α -> Prop}
    (done : forall later : ArrMem α, Tends heap.blocks later.blocks self self vals -> post () later) :
    Ends (writeElems self vals (wrapMul vals.length self.elem.size)) heap post := by
  have whole : Vec.Cells heap.blocks (full self) ([] ++ cells ++ []) := by
    rw [List.nil_append, List.append_nil]
    exact held
  apply Vec.ends_writeElems whole length some_ rfl rfl
  intro later rewrites
  rw [List.nil_append] at rewrites
  apply done later
  apply rewrites.tends_same
  rw [length, held.length]
  rfl

theorem ends_toSpan (holds : Holds blocks self elems) {s : S} {post : Span -> S -> Prop} :
    Ends (toSpan self) s post <-> post (Vec.span (full self)) s :=
  Vec.ends_toSpan holds

theorem blockLayout_eq (held : Vec.Cells blocks (full self) cells) :
    blockLayout self = ⟨self.elem.size * self.len, self.elem.align⟩ :=
  Vec.blockLayout_eq held

/-! ## Making arrs -/

section Building

variable {elem : Layout} {al : Al} {len : Nat}

/-- The block of an arr that was just built, of cells that are all alike. -/
theorem ends_initImpl {fill : Option α} (isType : elem.isType = true) (real : al.isSome = true)
    {post : Status × Option Arr -> ArrMem α -> Prop}
    (refused : heap.Spared (post (.errNoMem, none)))
    (done : forall (data : Option Addr) (later : ArrMem α),
      Vec.Cells later.blocks (full ⟨data, len, elem, al⟩) (List.replicate len fill) ->
      Evolves heap.blocks later.blocks [] data.toList -> post (.ok, some ⟨data, len, elem, al⟩) later) :
    Ends (initImpl fill len elem al) heap post := by
  simp only [initImpl, ends_bind, ends_require, isType, real, true_and]
  by_cases some_ : len > 0
  · rw [if_pos some_]
    rcases elem.ckdArray_cases len with ⟨overflow, _⟩ | ⟨layout, fits⟩
    · simp only [overflow, ends_pure]
      exact refused heap rfl
    · simp only [layout, ends_bind]
      apply Owns.ends_alloc real some_
      · intro later same
        exact (ends_pure _ _ _).mpr (refused later same)
      · intro ptr later owns evolves
        have held : Vec.Cells later.blocks (full ⟨some ptr, len, elem, al⟩) (List.replicate len fill) :=
          ⟨real, isType, fits, List.length_replicate, owns⟩
        simp only [ends_bind, ends_assertArr (held.asserts (Nat.le_refl len)), ends_pure]
        exact done _ later held evolves
  · have none_ : len = 0 := Nat.eq_zero_of_not_pos some_
    subst none_
    have held : Vec.Cells heap.blocks (full ⟨none, 0, elem, al⟩) (List.replicate 0 fill) :=
      ⟨real, isType, Nat.two_pow_pos 64, rfl, Or.inl ⟨rfl, rfl⟩⟩
    simp only [if_neg some_, ends_bind, ends_assertArr (held.asserts (Nat.le_refl 0)), ends_pure]
    exact done none heap held (Evolves.refl _ _)

theorem ends_initLen {zero : α} (isType : elem.isType = true) (real : al.isSome = true)
    {post : Status × Option Arr -> ArrMem α -> Prop}
    (refused : heap.Spared (post (.errNoMem, none)))
    (done : forall (arr : Arr) (later : ArrMem α),
      Born heap.blocks later.blocks arr (List.replicate len zero) elem al -> post (.ok, some arr) later) :
    Ends (initLen zero len elem al) heap post := by
  apply ends_initImpl isType real refused
  intro data later held evolves
  refine done _ later ⟨Holds.of_cells ?_ List.length_replicate.symm, evolves, rfl, rfl⟩
  rw [List.map_replicate]
  exact held

/-- The elems are read once the block is there, which has not changed them. -/
theorem ends_fromImpl {data : Nat -> Run (ArrMem α) (List α)} (isType : elem.isType = true) (real : al.isSome = true)
    {post : Status × Option Arr -> ArrMem α -> Prop}
    (reads : forall mid : ArrMem α, (forall addr, heap.blocks addr ≠ none -> mid.blocks addr = heap.blocks addr) ->
      vals ≠ [] -> forall post : List α -> ArrMem α -> Prop,
        Ends (data (wrapMul vals.length elem.size)) mid post <-> post vals mid)
    (refused : heap.Spared (post (.errNoMem, none)))
    (done : forall (arr : Arr) (later : ArrMem α), Born heap.blocks later.blocks arr vals elem al ->
      post (.ok, some arr) later) :
    Ends (fromImpl data vals.length elem al) heap post := by
  simp only [fromImpl, ends_bind]
  apply ends_initImpl isType real
  · intro later same
    simp only [if_refused, ends_pure]
    exact refused later same
  · intro block mid held evolves
    simp only [if_granted, ends_bind, ends_demand_some]
    by_cases some_ : vals.length > 0
    · have nonempty : vals ≠ [] := List.ne_nil_of_length_pos some_
      have still : forall addr, heap.blocks addr ≠ none -> mid.blocks addr = heap.blocks addr :=
        fun addr live => evolves.keeps List.not_mem_nil live
      simp only [if_pos some_, ends_bind, lenBytes, reads mid still nonempty]
      apply ends_writeElems held List.length_replicate.symm nonempty
      intro later tends
      exact (ends_pure _ _ _).mpr (done _ later ⟨tends.holds, evolves.trans tends.evolves, rfl, rfl⟩)
    · have none_ : vals = [] := List.eq_nil_of_length_eq_zero (Nat.eq_zero_of_not_pos some_)
      subst none_
      rw [if_neg some_]
      exact (ends_pure _ _ _).mpr (done _ mid ⟨Holds.of_cells held rfl, evolves, rfl, rfl⟩)

theorem ends_fromData {data : List α} (isType : elem.isType = true) (real : al.isSome = true)
    {post : Status × Option Arr -> ArrMem α -> Prop}
    (refused : heap.Spared (post (.errNoMem, none)))
    (done : forall (arr : Arr) (later : ArrMem α), Born heap.blocks later.blocks arr data elem al ->
      post (.ok, some arr) later) :
    Ends (fromData data elem al) heap post :=
  ends_fromImpl isType real (fun _ _ _ _ => ends_pure _ _ _) refused done

theorem ends_copyWith (holds : Holds heap.blocks self elems) (real : al.isSome = true)
    {post : Status × Option Arr -> ArrMem α -> Prop}
    (refused : heap.Spared (post (.errNoMem, none)))
    (done : forall (arr : Arr) (later : ArrMem α), Born heap.blocks later.blocks arr elems self.elem al ->
      post (.ok, some arr) later) :
    Ends (copyWith α self al) heap post := by
  have asserts := holds.span_holds
  simp only [copyWith, ends_bind, holds.ends_assertArr, ends_require, real, true_and, ends_toSpan holds,
    Span.ends_assertSpan (Span.Over.asserts asserts)]
  have len : (Vec.span (full self)).len = elems.length := holds.len
  rw [len]
  apply ends_fromImpl asserts.isType real _ refused done
  intro mid same nonempty post'
  have still : Holds mid.blocks self elems := holds.congr fun addr mine => same addr (holds.live mine)
  exact ends_readElems still nonempty

end Building

/-! ## Releasing arrs, and copying one over another -/

theorem ends_deinit_inert {post : Arr -> ArrMem α -> Prop} :
    Ends (deinit α inert) heap post <-> post inert heap := by
  have none_ : inert.al = none := rfl
  have bare : inert.data = none := rfl
  simp only [deinit, if_pos none_, ends_bind, ends_require, bare, true_and, ends_pure]

theorem ends_deinit (holds : Holds heap.blocks self elems) {post : Arr -> ArrMem α -> Prop}
    (done : forall later : ArrMem α, Evolves heap.blocks later.blocks self.data.toList [] -> post inert later) :
    Ends (deinit α self) heap post := by
  have held := holds.whole
  have real : self.al ≠ none := Option.isSome_iff_ne_none.mp held.real
  simp only [deinit, if_neg real, ends_bind, holds.ends_assertArr, blockLayout_eq held]
  apply held.owns.ends_dealloc held.real held.size_pos
  intro later gone
  exact (ends_pure _ _ _).mpr (done later gone)

/-- As many bytes are as many elems. -/
theorem lenBytes_eq_iff {other : Arr} (holds : Holds blocks self elems) (source : Holds blocks other rest)
    (sameElem : self.elem = other.elem) : lenBytes self = lenBytes other <-> self.len = other.len := by
  have first : lenBytes self = self.len * self.elem.size := holds.whole.wrapMul_eq (Nat.le_refl _)
  have second : lenBytes other = other.len * other.elem.size := source.whole.wrapMul_eq (Nat.le_refl _)
  have sized : 0 < other.elem.size := source.whole.size_pos
  rw [first, second, sameElem, Nat.mul_left_inj (Nat.ne_of_gt sized)]

/-- The block is one for another number of elems, or nothing has changed. -/
theorem ends_resized {newLen : Nat} (holds : Holds heap.blocks self elems) (fits : self.elem.size * newLen < sizeRange)
    {post : Option Addr -> ArrMem α -> Prop}
    (refused : 0 < newLen -> heap.Spared (post none))
    (done : forall (data : Option Addr) (later : ArrMem α) (cells : List (Option α)),
      Vec.Cells later.blocks (full { self with data := data, len := newLen }) cells ->
      Evolves heap.blocks later.blocks self.data.toList data.toList -> post data later) :
    Ends (realloc self.al self.data (blockLayout self) (wrapMul newLen self.elem.size)
      (List.replicate newLen (none : Option α)) (fitted newLen)) heap post := by
  have held := holds.whole
  have bytes : wrapMul newLen self.elem.size = self.elem.size * newLen := by
    rw [TerseDsa.wrapMul_eq (by rwa [Nat.mul_comm]), Nat.mul_comm]
  rw [blockLayout_eq held, bytes]
  apply held.owns.ends_realloc held.real held.size_pos refused
  intro data later owns evolves
  refine done data later _ ⟨held.real, held.isType, fits, ?_, owns⟩ evolves
  change List.length _ = newLen
  split
  · exact List.length_replicate
  · unfold fitted
    rw [List.length_append, List.length_take, List.length_replicate]
    omega

/-- The contents of another arr over those of this one. -/
theorem ends_copyOver {other : Arr} (holds : Holds heap.blocks self elems) (source : Holds heap.blocks other rest)
    (sameElem : self.elem = other.elem) (apart : forall addr, addr ∈ other.data.toList -> addr ∉ self.data.toList)
    {post : Status × Arr -> ArrMem α -> Prop}
    (refused : heap.Spared (post (.errNoMem, self)))
    (done : forall (after : Arr) (later : ArrMem α), Tends heap.blocks later.blocks self after rest ->
      post (.ok, after) later) :
    Ends (copyOver α self other) heap post := by
  have len : other.len = rest.length := source.len
  have sourceHeld := source.whole
  have fits : self.elem.size * other.len < sizeRange := by
    rw [sameElem]
    exact sourceHeld.fits
  have sized : 0 < other.elem.size := sourceHeld.size_pos
  have bytes : lenBytes other = other.len * other.elem.size := sourceHeld.wrapMul_eq (Nat.le_refl _)
  have some_bytes : lenBytes other > 0 <-> rest ≠ [] := by
    rw [bytes, ← List.length_pos_iff, ← len]
    exact ⟨fun more => Nat.pos_of_mul_pos_right more, fun more => Nat.mul_pos more sized⟩
  -- the block is of the right size, and `other` is still what it was
  have filled : forall (resized : Arr) (mid : ArrMem α) (cells : List (Option α)),
      Vec.Cells mid.blocks (full resized) cells -> cells.length = rest.length ->
      Evolves heap.blocks mid.blocks self.data.toList resized.data.toList -> resized.elem = self.elem ->
      resized.al = self.al ->
      Ends (do
        if lenBytes other > 0 then
          require (resized.data ≠ other.data)
          let vals : List α ← readElems other (lenBytes other)
          writeElems resized vals (lenBytes other)
        assertArr resized
        return (Status.ok, resized)) mid post := by
    intro resized mid cells held length evolves elemSame alSame
    by_cases some_ : rest = []
    · have nothing : cells = [] := by
        rw [some_] at length
        exact List.eq_nil_of_length_eq_zero length
      subst nothing some_
      have now : Holds mid.blocks resized [] := Holds.of_cells held held.length.symm
      rw [if_neg (mt some_bytes.mp fun more => more rfl)]
      simp only [ends_bind, now.ends_assertArr, ends_pure]
      exact done resized mid ⟨now, evolves, elemSame, alSame⟩
    · have still : Holds mid.blocks other rest :=
        source.congr fun addr mine => evolves.keeps (apart addr mine) (source.live mine)
      have different : resized.data ≠ other.data := by
        intro same
        rcases sourceHeld.owns with ⟨_, none_⟩ | ⟨addr, at_, _, _⟩
        · exact some_ (List.eq_nil_of_length_eq_zero (len.symm.trans none_))
        · have at_' : other.data = some addr := at_
          have there : addr ∈ other.data.toList := by
            rw [at_']
            exact List.mem_singleton_self addr
          have alsoMine : addr ∈ resized.data.toList := same ▸ there
          exact source.live there (evolves.fresh addr alsoMine (apart addr there))
      have count : lenBytes other = wrapMul rest.length other.elem.size := by
        rw [lenBytes, len]
      have countHere : wrapMul rest.length other.elem.size = wrapMul rest.length resized.elem.size := by
        rw [elemSame, sameElem]
      rw [if_pos (some_bytes.mpr some_)]
      simp only [ends_bind, ends_require, different, ne_eq, not_false_eq_true, true_and, count,
        ends_readElems still some_]
      rw [countHere]
      apply ends_writeElems held length.symm some_
      intro later tends
      have now : Holds later.blocks resized rest := tends.holds
      simp only [now.ends_assertArr, ends_pure]
      exact done resized later ⟨now, evolves.trans tends.evolves, elemSame, alSame⟩
  unfold copyOver
  by_cases same : lenBytes self = lenBytes other
  · have lens := (lenBytes_eq_iff holds source sameElem).mp same
    have elemsLen : self.len = elems.length := holds.len
    have length : (elems.map some).length = rest.length := by
      rw [List.length_map, ← elemsLen, lens, len]
    simp only [same, ne_eq, not_true_eq_false, if_false, ends_bind, ends_pure]
    exact filled self heap _ holds.whole length (Evolves.refl _ _) rfl rfl
  · have wanted : lenBytes other = wrapMul other.len self.elem.size := by
      rw [lenBytes, sameElem]
    simp only [same, ne_eq, not_false_eq_true, if_true, ends_bind]
    rw [wanted]
    apply ends_resized holds fits
    · intro some_ later unchanged
      have more : wrapMul other.len self.elem.size > 0 := by
        rw [← wanted, bytes]
        exact Nat.mul_pos some_ sized
      rw [if_pos ⟨more, rfl⟩, ends_bind, ends_pure, if_pos (fun same => by cases same), ends_pure]
      exact refused later unchanged
    · intro data later cells held evolves
      have granted : ¬ (wrapMul other.len self.elem.size > 0 ∧ data = none) := by
        rintro ⟨more, none_⟩
        have empty : other.len = 0 := held.owns.none_iff.mp none_
        rw [← wanted, bytes, empty, Nat.zero_mul] at more
        exact Nat.lt_irrefl 0 more
      rw [if_neg granted, ← wanted, ends_bind, ends_pure, if_neg (not_not_intro rfl)]
      exact filled _ later cells held (held.length.trans len) evolves rfl rfl

/-! ## Raw blocks -/

/-- The block is handed out, and the arr forgets it. -/
theorem ends_intoRaw (holds : Holds blocks self elems) {s : S} {post : RawElems × Arr -> S -> Prop} :
    Ends (intoRaw self) s post <-> post (⟨self.data, self.len, self.elem⟩, inert) s := by
  simp only [intoRaw, ends_bind, holds.ends_assertArr, ends_pure]

/-- An arr takes over a block of just so many elems. -/
theorem ends_initRaw (holds : Holds blocks self elems) {s : S} {post : Arr -> S -> Prop} :
    Ends (initRaw ⟨self.data, self.len, self.elem⟩ self.al) s post <-> post self s := by
  have held := holds.whole
  rcases Vec.Holds.asserts holds with ⟨isType, _, some_, _, real⟩
  have fits : (self.elem.ckdArray self.len).isSome = true := by
    rcases self.elem.ckdArray_cases self.len with ⟨_, overflow⟩ | ⟨layout, _⟩
    · exact absurd held.fits (Nat.not_lt.mpr overflow)
    · rw [layout]
      rfl
  have present : self.data.isSome = true ∨ self.len = 0 := some_.symm
  have bare : self.data = none <-> self.len = 0 := Vec.Holds.bare holds
  have isType' : self.elem.isType = true := isType
  have real' : self.al.isSome = true := real
  simp only [initRaw, ends_bind, ends_require, present, isType', real', bare, fits, and_self, true_and,
    ends_pure]

/-! ## Elems -/

theorem ends_set {named : Operand α} (holds : Holds heap.blocks self elems) (names : Vec.Names elems val named)
    (inside : idx < self.len) {post : Unit -> ArrMem α -> Prop}
    (done : forall later : ArrMem α, Tends heap.blocks later.blocks self self (elems.set idx val) -> post () later) :
    Ends (set self idx named) heap post := by
  simp only [set, ends_bind, holds.ends_assertArr, ends_require, inside, true_and]
  cases named with
  | outside given =>
      have same : given = val := names
      rw [same]
      exact Vec.ends_setElem holds inside done
  | slot slot =>
      have read : forall post : α -> ArrMem α -> Prop, Ends (readElem self slot) heap post <-> post val heap :=
        fun _ => Vec.ends_elem holds names
      simp only [ends_bind, read]
      exact Vec.ends_setElem holds inside done

theorem ends_swapElems {i j : Nat} (holds : Holds heap.blocks self elems) (first : i < self.len)
    (second : j < self.len) {post : Unit -> ArrMem α -> Prop}
    (done : forall later : ArrMem α, Tends heap.blocks later.blocks self self (Span.exchanged elems i j) ->
      post () later) :
    Ends (swapElems α self i j) heap post := by
  have len : self.len = elems.length := holds.len
  simp only [swapElems, ends_bind, holds.ends_assertArr, ends_require, first, second, true_and,
    ends_toSpan holds]
  rw [len] at first second
  apply Span.ends_swapElems holds.span_holds first second
  intro later same
  exact done later (holds.placed (Span.length_exchanged i j) same)

end Arr
end TerseDsa
