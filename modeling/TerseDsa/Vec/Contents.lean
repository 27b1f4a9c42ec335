import TerseDsa.Vec.Model

namespace TerseDsa

open Foundation Run

/-!
# Contents and growth

`Vec.Holds` ties a vec to the list of its elems: those are the first `len_`
cells of the block, and nothing is said of the spare cells behind them.
`Vec.Tends` is what an operation does: the vec is held again, over the elems
after, and only its own block was touched.
-/

namespace Vec

variable {α S : Type} {heap : VecMem α} {self after : Vec} {blocks later last : Blocks AlTag (List (Option α))}
  {cells next left mid right spare : List (Option α)} {elems vals rest : List α} {idx count newCap newLen : Nat}
  {val : α}

/-- The block of the vec, with what is in its cells. -/
structure Cells (blocks : Blocks AlTag (List (Option α))) (vec : Vec) (cells : List (Option α)) : Prop where
  real : vec.al.isSome = true
  isType : vec.elem.isType = true
  fits : vec.elem.size * vec.cap < sizeRange
  length : cells.length = vec.cap
  owns : Owns blocks vec.al vec.elem vec.data vec.cap cells

/-- The elems of the vec, with spare cells behind them. -/
structure Holds (blocks : Blocks AlTag (List (Option α))) (vec : Vec) (elems : List α) : Prop where
  cells : exists spare, Cells blocks vec (elems.map some ++ spare)
  len : vec.len = elems.length

/-- From one vec to another on the same allocator. -/
structure Tends (blocks later : Blocks AlTag (List (Option α))) (vec after : Vec) (elems : List α) : Prop where
  holds : Holds later after elems
  evolves : Evolves blocks later vec.data.toList after.data.toList
  elem : after.elem = vec.elem
  al : after.al = vec.al

/-- The cells were written over in place. -/
structure Rewrites (blocks later : Blocks AlTag (List (Option α))) (vec : Vec) (cells : List (Option α)) : Prop where
  cells : Cells later vec cells
  evolves : Evolves blocks later vec.data.toList vec.data.toList

namespace Cells

theorem size_pos (held : Cells blocks self cells) : 0 < self.elem.size :=
  Layout.size_pos held.isType

/-- So many elems in the block have a size that fits. -/
theorem wrapMul_eq (held : Cells blocks self cells) (inside : count ≤ self.cap) :
    wrapMul count self.elem.size = count * self.elem.size := by
  apply TerseDsa.wrapMul_eq
  rw [Nat.mul_comm]
  exact Nat.lt_of_le_of_lt (Nat.mul_le_mul_left _ inside) held.fits

theorem asserts (held : Cells blocks self cells) (load : self.len ≤ self.cap) : self.Asserts := by
  have bare := held.owns.none_iff
  refine ⟨held.isType, load, ?_, ?_, held.real⟩
  · by_cases empty : self.cap = 0
    · exact Or.inl empty
    · exact Or.inr (Option.isSome_iff_ne_none.mpr fun none_ => empty (bare.mp none_))
  · by_cases none_ : self.data = none
    · exact Or.inl none_
    · exact Or.inr (Nat.pos_of_ne_zero fun empty => none_ (bare.mpr empty))

/-- The block is the slots of the vec. -/
theorem shows_ (held : Cells blocks self cells) : Slice.Shows blocks self.slots cells := by
  refine ⟨held.length, ?_⟩
  rcases held.owns with ⟨none_, empty⟩ | ⟨addr, at_, _, block⟩
  · exact Or.inl ⟨none_, List.eq_nil_of_length_eq_zero (held.length.trans empty)⟩
  · exact Or.inr ⟨addr, _, [], [], at_, by rw [block, List.nil_append, List.append_nil], rfl⟩

/-- The length of the vec is no matter to its block. -/
theorem with_len (held : Cells blocks self cells) (newLen : Nat) : Cells blocks { self with len := newLen } cells :=
  ⟨held.real, held.isType, held.fits, held.length, held.owns⟩

theorem rewrites (held : Cells blocks self cells) : Rewrites blocks blocks self cells :=
  ⟨held, Evolves.refl _ _⟩

theorem filled (held : Cells blocks self cells) (length : next.length = cells.length)
    (same : later = Slice.fill blocks self.slots next) : Rewrites blocks later self next := by
  subst same
  rcases held.owns with ⟨none_, empty⟩ | ⟨addr, at_, some_, block⟩
  · have nowhere : self.slots.data = none := none_
    have still : Slice.fill blocks self.slots next = blocks := by
      unfold Slice.fill
      rw [nowhere]
    rw [still]
    exact ⟨⟨held.real, held.isType, held.fits, length.trans held.length, Or.inl ⟨none_, empty⟩⟩, Evolves.refl _ _⟩
  · have row : blocks addr = some ⟨(self.al, ⟨self.elem.size * self.cap, self.elem.align⟩), [] ++ cells ++ []⟩ := by
      rw [block, List.nil_append, List.append_nil]
    have at_' : self.slots.data = some addr := at_
    rw [Slice.Shows.fill_eq at_' row rfl length, List.nil_append, List.append_nil]
    refine ⟨⟨held.real, held.isType, held.fits, length.trans held.length, Or.inr ⟨addr, at_, some_, ?_⟩⟩, ?_⟩
    · rw [Function.update_self]
    · apply Evolves.of_write
      rw [at_]
      exact List.mem_singleton_self addr

end Cells

namespace Rewrites

theorem trans (first : Rewrites blocks later self cells) (second : Rewrites later last self next) :
    Rewrites blocks last self next :=
  ⟨second.cells, first.evolves.trans second.evolves⟩

/-- The length of the vec is no matter to its block. -/
theorem of_len (rewrites : Rewrites blocks later { self with len := newLen } cells) : Rewrites blocks later self cells :=
  ⟨rewrites.cells.with_len self.len, rewrites.evolves⟩

/-- The first cells are the elems of a vec of their length. -/
theorem tends (rewrites : Rewrites blocks later self (elems.map some ++ spare)) (len : newLen = elems.length) :
    Tends blocks later self { self with len := newLen } elems :=
  ⟨⟨⟨spare, rewrites.cells.with_len newLen⟩, len⟩, rewrites.evolves, rfl, rfl⟩

/-- The elems were written over, and there are as many as before. -/
theorem tends_same (rewrites : Rewrites blocks later self (elems.map some ++ spare)) (len : self.len = elems.length) :
    Tends blocks later self self elems :=
  ⟨⟨⟨spare, rewrites.cells⟩, len⟩, rewrites.evolves, rfl, rfl⟩

end Rewrites

namespace Holds

theorem load (holds : Holds blocks self elems) : self.len ≤ self.cap := by
  rcases holds.cells with ⟨spare, held⟩
  have length := held.length
  rw [List.length_append, List.length_map] at length
  rw [holds.len]
  omega

theorem asserts (holds : Holds blocks self elems) : self.Asserts := by
  rcases holds.cells with ⟨spare, held⟩
  exact held.asserts holds.load

theorem real (holds : Holds blocks self elems) : self.al.isSome = true := by
  rcases holds.cells with ⟨spare, held⟩
  exact held.real

/-- There is a block exactly if there is room. -/
theorem bare (holds : Holds blocks self elems) : self.data = none <-> self.cap = 0 := by
  rcases holds.cells with ⟨spare, held⟩
  exact held.owns.none_iff

theorem live (holds : Holds blocks self elems) {addr : Addr} (mine : addr ∈ self.data.toList) :
    blocks addr ≠ none := by
  rcases holds.cells with ⟨spare, held⟩
  exact held.owns.live mine

theorem congr (holds : Holds blocks self elems)
    (agree : forall addr, addr ∈ self.data.toList -> later addr = blocks addr) : Holds later self elems := by
  rcases holds.cells with ⟨spare, held⟩
  exact ⟨⟨spare, held.real, held.isType, held.fits, held.length, held.owns.congr agree⟩, holds.len⟩

theorem of_bare (real : self.al.isSome = true) (isType : self.elem.isType = true) (data : self.data = none)
    (cap : self.cap = 0) (len : self.len = 0) : Holds blocks self ([] : List α) := by
  refine ⟨⟨[], real, isType, ?_, cap.symm, Or.inl ⟨data, cap⟩⟩, len⟩
  rw [cap, Nat.mul_zero]
  exact Nat.two_pow_pos 64

/-- A vec with fewer elems in the same block. -/
theorem shorten (holds : Holds blocks self (elems ++ rest)) (len : newLen = elems.length) :
    Tends blocks blocks self { self with len := newLen } elems := by
  rcases holds.cells with ⟨spare, held⟩
  rw [List.map_append, List.append_assoc] at held
  exact held.rewrites.tends len

end Holds

namespace Tends

theorem refl (holds : Holds blocks self elems) : Tends blocks blocks self self elems :=
  ⟨holds, Evolves.refl _ _, rfl, rfl⟩

theorem trans {final : Vec} (first : Tends blocks later self after elems) (second : Tends later last after final rest) :
    Tends blocks last self final rest :=
  ⟨second.holds, first.evolves.trans second.evolves, second.elem.trans first.elem, second.al.trans first.al⟩

end Tends

/-! ## Access -/

theorem ends_assertVec (asserts : self.Asserts) {s : S} {post : Unit -> S -> Prop} :
    Ends (assertVec self) s post <-> post () s := by
  simp only [assertVec, ends_require, asserts, true_and]

theorem ends_elemsIn (held : Cells blocks self cells) (inside : count ≤ self.cap) {s : S} {post : Nat -> S -> Prop} :
    Ends (elemsIn self (wrapMul count self.elem.size)) s post <-> post count s := by
  rw [held.wrapMul_eq inside]
  simp only [elemsIn, ends_bind, ends_require, Nat.mul_mod_left, true_and, ends_pure,
    Nat.mul_div_cancel _ held.size_pos]

theorem ends_readElem (held : Cells heap.blocks self cells) (found : cells[idx]? = some (some val))
    {post : α -> VecMem α -> Prop} : Ends (readElem self idx) heap post <-> post val heap := by
  rcases List.getElem?_eq_some_iff.mp found with ⟨inside, at_⟩
  simp only [readElem, ends_bind, Slice.ends_read held.shows_ inside, at_, ends_demand_some]

theorem ends_writeElem (held : Cells heap.blocks self cells) (inside : idx < cells.length)
    {post : Unit -> VecMem α -> Prop}
    (done : forall later : VecMem α, Rewrites heap.blocks later.blocks self (cells.set idx (some val)) ->
      post () later) :
    Ends (writeElem self idx val) heap post :=
  Slice.ends_write held.shows_ inside fun later same => done later (held.filled List.length_set same)

theorem ends_copyElem {dst src : Nat} (held : Cells heap.blocks self cells) (found : cells[src]? = some (some val))
    (inside : dst < cells.length) (different : dst ≠ src) {post : Unit -> VecMem α -> Prop}
    (done : forall later : VecMem α, Rewrites heap.blocks later.blocks self (cells.set dst (some val)) ->
      post () later) :
    Ends (copyElem α self dst src) heap post := by
  simp only [copyElem, ends_bind, ends_require, different, ne_eq, not_false_eq_true, true_and,
    ends_readElem held found]
  exact ends_writeElem held inside done

theorem mapM_some (vals : List α) : (vals.map some).mapM id = some vals := by
  induction vals with
  | nil => rfl
  | cons val rest ih =>
      rw [List.map_cons, List.mapM_cons, ih]
      rfl

theorem ends_readElems (held : Cells heap.blocks self (left ++ vals.map some ++ right)) (some_ : vals ≠ [])
    (here : idx = left.length) (many : count = vals.length) {post : List α -> VecMem α -> Prop} :
    Ends (readElems self idx (wrapMul count self.elem.size)) heap post <-> post vals heap := by
  subst here many
  have inside : vals.length ≤ self.cap := by
    have length := held.length
    simp only [List.length_append, List.length_map] at length
    omega
  have nonempty : left ++ vals.map some ++ right ≠ [] := by
    intro empty
    simp only [List.append_eq_nil_iff, List.map_eq_nil_iff] at empty
    exact some_ empty.1.2
  have length : (vals.map some).length = vals.length := List.length_map _
  simp only [readElems, ends_bind, ends_elemsIn held inside]
  rw [← length, Slice.ends_readRun held.shows_ nonempty, mapM_some, ends_demand_some]

theorem ends_writeElems (held : Cells heap.blocks self (left ++ mid ++ right)) (length : vals.length = mid.length)
    (some_ : vals ≠ []) (here : idx = left.length) (many : count = vals.length) {post : Unit -> VecMem α -> Prop}
    (done : forall later : VecMem α,
      Rewrites heap.blocks later.blocks self (left ++ vals.map some ++ right) -> post () later) :
    Ends (writeElems self idx vals (wrapMul count self.elem.size)) heap post := by
  subst here many
  have inside : vals.length ≤ self.cap := by
    have total := held.length
    simp only [List.length_append] at total
    omega
  have nonempty : left ++ mid ++ right ≠ [] := by
    intro empty
    simp only [List.append_eq_nil_iff] at empty
    rw [empty.1.2] at length
    exact some_ (List.eq_nil_of_length_eq_zero length)
  simp only [writeElems, ends_bind, ends_elemsIn held inside, ends_require, Nat.le_refl, true_and,
    List.take_length]
  apply Slice.ends_writeRun held.shows_ (by rw [List.length_map, length]) nonempty
  intro later same
  apply done later
  apply held.filled _ same
  simp only [List.length_append, List.length_map, length]

/-- Elems are moved to where the same cells are cut differently. -/
theorem ends_moveElems {front back : List (Option α)} {dst src : Nat}
    (held : Cells heap.blocks self (left ++ vals.map some ++ right)) (some_ : vals ≠ []) (here : src = left.length)
    (many : count = vals.length) (recut : left ++ vals.map some ++ right = front ++ mid ++ back)
    (length : vals.length = mid.length) (there : dst = front.length) {post : Unit -> VecMem α -> Prop}
    (done : forall later : VecMem α,
      Rewrites heap.blocks later.blocks self (front ++ vals.map some ++ back) -> post () later) :
    Ends (moveElems α self dst src (wrapMul count self.elem.size)) heap post := by
  simp only [moveElems, ends_bind, ends_readElems held some_ here many]
  rw [recut] at held
  exact ends_writeElems held length some_ there many done

theorem Holds.found (holds : Holds blocks self elems) (at_ : elems[idx]? = some val) :
    exists spare, Cells blocks self (elems.map some ++ spare) ∧ (elems.map some ++ spare)[idx]? = some (some val) := by
  rcases holds.cells with ⟨spare, held⟩
  refine ⟨spare, held, ?_⟩
  have inside := (List.getElem?_eq_some_iff.mp at_).1
  rw [List.getElem?_append_left (by rwa [List.length_map]), List.getElem?_map, at_]
  rfl

theorem ends_elem (holds : Holds heap.blocks self elems) (at_ : elems[idx]? = some val)
    {post : α -> VecMem α -> Prop} : Ends (readElem self idx) heap post <-> post val heap := by
  rcases holds.found at_ with ⟨spare, held, found⟩
  exact ends_readElem held found

/-! ## Growth -/

theorem blockLayout_eq (held : Cells blocks self cells) :
    blockLayout self = ⟨self.elem.size * self.cap, self.elem.align⟩ := by
  unfold blockLayout Span.elemsLayout
  rw [TerseDsa.wrapMul_eq held.fits]

/-- A block of another size holds the elems, if there is room for them. -/
theorem fitted_append (spare : List (Option α)) (enough : elems.length ≤ newCap) :
    exists more, fitted newCap (elems.map some ++ spare) = elems.map some ++ more ∧
      (elems.map some ++ more).length = newCap := by
  refine ⟨spare.take (newCap - elems.length) ++
    List.replicate (newCap - (elems.map some ++ spare).length) none, ?_, ?_⟩
  · unfold fitted
    rw [List.take_append, List.length_map, List.take_of_length_le (by rwa [List.length_map]), List.append_assoc]
  · simp only [List.length_append, List.length_map, List.length_take, List.length_replicate]
    omega

theorem ends_setCap (holds : Holds heap.blocks self elems) (enough : self.len ≤ newCap) (room : 0 < newCap)
    {post : Status × Vec -> VecMem α -> Prop}
    (refused : heap.Spared (post (.errNoMem, self)))
    (done : forall (after : Vec) (later : VecMem α), Tends heap.blocks later.blocks self after elems ->
      after.cap = newCap -> after.len = self.len -> post (.ok, after) later) :
    Ends (setCap α self newCap) heap post := by
  rcases holds.cells with ⟨spare, held⟩
  simp only [setCap, ends_bind, ends_require, ge_iff_le, enough, gt_iff_lt, room, true_and]
  rcases self.elem.ckdArray_cases newCap with ⟨overflow, _⟩ | ⟨layout, fits⟩
  · simp only [overflow, ends_pure]
    exact refused heap rfl
  · simp only [layout, ends_bind, blockLayout_eq held]
    apply held.owns.ends_realloc held.real held.size_pos
    · intro _ later same
      exact (ends_pure _ _ _).mpr (refused later same)
    · intro newPtr later owns evolves
      rcases owns.block_at room with ⟨ptr, rfl, _⟩
      simp only [ends_pure]
      rw [holds.len] at enough
      have now : exists more, Cells later.blocks { self with data := some ptr, cap := newCap }
          (elems.map some ++ more) := by
        by_cases bare : self.cap = 0
        · rw [if_pos bare] at owns
          have none_ : elems = [] := by
            apply List.eq_nil_of_length_eq_zero
            have load := holds.load
            rw [holds.len] at load
            omega
          rw [none_]
          exact ⟨_, held.real, held.isType, fits, List.length_replicate, owns⟩
        · rw [if_neg bare] at owns
          rcases fitted_append spare enough with ⟨more, same, length⟩
          rw [same] at owns
          exact ⟨more, held.real, held.isType, fits, length, owns⟩
      exact done _ later ⟨⟨now, holds.len⟩, evolves, rfl, rfl⟩ rfl rfl

theorem ends_reserve (holds : Holds heap.blocks self elems) {post : Status × Vec -> VecMem α -> Prop}
    (refused : heap.Spared (post (.errNoMem, self)))
    (done : forall (after : Vec) (later : VecMem α), Tends heap.blocks later.blocks self after elems ->
      newCap ≤ after.cap -> after.len = self.len -> post (.ok, after) later) :
    Ends (reserve α self newCap) heap post := by
  simp only [reserve, ends_bind, ends_assertVec holds.asserts]
  by_cases enough : newCap ≤ self.cap
  · rw [if_pos enough, ends_pure]
    exact done self heap (Tends.refl holds) enough rfl
  · have load := holds.load
    simp only [if_neg enough, ends_bind]
    apply ends_setCap holds (by omega) (by omega)
    · intro later same
      simp only [ends_assertVec holds.asserts, ends_pure]
      exact refused later same
    · intro after later tends cap len
      simp only [ends_assertVec tends.holds.asserts, ends_pure]
      exact done after later tends (Nat.le_of_eq cap.symm) len

theorem ends_reserveFor (holds : Holds heap.blocks self elems) (enough : self.len ≤ newLen)
    {post : Status × Vec -> VecMem α -> Prop}
    (refused : heap.Spared (post (.errNoMem, self)))
    (done : forall (after : Vec) (later : VecMem α), Tends heap.blocks later.blocks self after elems ->
      newLen ≤ after.cap -> after.len = self.len -> post (.ok, after) later) :
    Ends (reserveFor α self newLen) heap post := by
  unfold reserveFor
  by_cases there : newLen ≤ self.cap
  · rw [if_pos there, ends_pure]
    exact done self heap (Tends.refl holds) there rfl
  · have exactly : forall mid : VecMem α, mid.blocks = heap.blocks -> Ends (setCap α self newLen) mid post := by
      intro mid same
      rw [← same] at holds done
      apply ends_setCap holds enough (by omega) (refused.on same)
      intro after later tends cap len
      exact done after later tends (Nat.le_of_eq cap.symm) len
    by_cases eager : nextCap self > newLen
    · simp only [if_neg there, if_pos eager, ends_bind]
      apply ends_setCap holds (by omega) (by omega)
      · intro mid same
        simp only [reduceCtorEq, if_false]
        exact exactly mid same
      · intro after later tends cap len
        simp only [if_true, ends_pure]
        exact done after later tends (by omega) len
    · simp only [if_neg there, if_neg eager]
      exact exactly heap rfl

theorem ends_reserveOne (holds : Holds heap.blocks self elems) {post : Status × Vec -> VecMem α -> Prop}
    (refused : heap.Spared (post (.errNoMem, self)))
    (done : forall (after : Vec) (later : VecMem α), Tends heap.blocks later.blocks self after elems ->
      after.len < after.cap -> after.len = self.len -> post (.ok, after) later) :
    Ends (reserveOne α self) heap post := by
  unfold reserveOne
  by_cases room : self.len < self.cap
  · rw [if_pos room, ends_pure]
    exact done self heap (Tends.refl holds) room rfl
  · rw [if_neg room]
    by_cases full : self.cap = sizeMax
    · rw [if_pos full, ends_pure]
      exact refused heap rfl
    · rw [if_neg full]
      have load := holds.load
      apply ends_reserveFor holds (by omega) refused
      intro after later tends more len
      exact done after later tends (by omega) len

/-- A gap among the elems, whatever is in it. -/
theorem ends_openGap (holds : Holds heap.blocks self elems) (inside : idx ≤ self.len)
    {post : Status × Vec -> VecMem α -> Prop}
    (refused : heap.Spared (post (.errNoMem, self)))
    (done : forall (grown : Vec) (mid later : VecMem α) (gap spare : List (Option α)),
      Tends heap.blocks mid.blocks self grown elems -> gap.length = count ->
      Rewrites mid.blocks later.blocks grown
        ((elems.take idx).map some ++ gap ++ ((elems.drop idx).map some ++ spare)) ->
      post (.ok, { grown with len := elems.length + count }) later) :
    Ends (openGap α self idx count) heap post := by
  have len := holds.len
  simp only [openGap, ends_bind, ends_require, inside, true_and]
  by_cases overflow : self.len + count < sizeRange
  · simp only [ckdAdd, if_pos overflow, ends_bind]
    apply ends_reserveFor holds (Nat.le_add_right _ _)
    · intro later same
      simp only [if_refused, ends_pure]
      exact refused later same
    · intro grown mid tends room sameLen
      rcases tends.holds.cells with ⟨spare, held⟩
      have total := held.length
      simp only [List.length_append, List.length_map] at total
      have split : elems.map some = (elems.take idx).map some ++ (elems.drop idx).map some := by
        rw [← List.map_append, List.take_append_drop]
      have front : ((elems.take idx).map some).length = idx := by
        rw [List.length_map, List.length_take]
        omega
      have back : (elems.drop idx).length = self.len - idx := by
        rw [List.length_drop]
        omega
      have wide : count ≤ ((elems.drop idx).map some ++ spare).length := by
        rw [List.length_append, List.length_map]
        omega
      rw [split, List.append_assoc] at held
      simp only [if_granted, sameLen, len]
      by_cases none_ : elems.length - idx > 0
      · have some_ : elems.drop idx ≠ [] := by
          intro empty
          rw [empty, List.length_nil] at back
          omega
        rw [← List.append_assoc] at held
        have fits : (elems.drop idx).length ≤ (((elems.drop idx).map some ++ spare).drop count).length := by
          simp only [List.length_drop, List.length_append, List.length_map]
          omega
        have recut : (elems.take idx).map some ++ (elems.drop idx).map some ++ spare =
            ((elems.take idx).map some ++ ((elems.drop idx).map some ++ spare).take count) ++
              (((elems.drop idx).map some ++ spare).drop count).take (elems.drop idx).length ++
              (((elems.drop idx).map some ++ spare).drop count).drop (elems.drop idx).length := by
          simp only [List.append_assoc, List.take_append_drop]
        simp only [if_pos none_, ends_bind]
        apply ends_moveElems held some_ front.symm (by rw [back, len]) recut
        · rw [List.length_take, Nat.min_eq_left fits]
        · rw [List.length_append, front, List.length_take, Nat.min_eq_left wide]
        · intro later rewrites
          simp only [ends_pure]
          apply done grown mid later _ _ tends _ (by simpa only [List.append_assoc] using rewrites)
          rw [List.length_take, Nat.min_eq_left wide]
      · have empty : elems.drop idx = [] := List.eq_nil_of_length_eq_zero (by omega)
        rw [empty, List.map_nil, List.nil_append] at held wide
        simp only [if_neg none_, ends_pure]
        apply done grown mid mid (spare.take count) (spare.drop count) tends
        · rw [List.length_take, Nat.min_eq_left wide]
        · rw [empty, List.map_nil, List.nil_append, List.append_assoc, List.take_append_drop]
          exact held.rewrites
  · simp only [ckdAdd, if_neg overflow, ends_pure]
    exact refused heap rfl

end Vec
end TerseDsa
