import TerseDsa.Foundation.Sift
import TerseDsa.Vec.Contents

namespace TerseDsa

open Foundation Run

/-!
# The operations of a vec, on its elems

For each operation, what becomes of the list of elems.  An operation that may
be refused has two outcomes: it was refused and nothing has changed, or it was
done.
-/

namespace Vec

variable {α C S : Type} {heap : VecMem α} {self after : Vec} {blocks later : Blocks AlTag (List (Option α))}
  {spare : List (Option α)} {elems rest src : List α} {idx count newLen : Nat} {val last : α}

/-! ## Operands -/

/-- The elem an operand names: an outside value, or an elem of the vec. -/
def Names (elems : List α) (val : α) : Operand α -> Prop
  | .outside given => given = val
  | .slot slot => elems[slot]? = some val

/-- The index kept of an operand. -/
def indexOf : Operand α -> Option Nat
  | .outside _ => none
  | .slot slot => some slot

theorem Holds.inside (holds : Holds blocks self elems) (found : elems[idx]? = some val) : idx < self.len := by
  rw [holds.len]
  exact (List.getElem?_eq_some_iff.mp found).1

theorem ends_aliasIdx {named : Operand α} (names : Names elems val named) (holds : Holds blocks self elems) {s : S}
    {post : Option Nat -> S -> Prop} :
    Ends (aliasIdx self named) s post <-> post (indexOf named) s := by
  cases named with
  | outside given => simp only [aliasIdx, ends_pure, indexOf]
  | slot slot =>
      have inside := holds.inside names
      have inBlock : slot < self.cap := Nat.lt_of_lt_of_le inside holds.load
      simp only [aliasIdx, ends_bind, ends_require, inBlock, inside, true_and, ends_pure, indexOf]

/-- Growth keeps the elems, so the elem is found again by its index. -/
theorem ends_operand {named : Operand α} (names : Names elems val named) (holds : Holds heap.blocks self elems)
    {post : α -> VecMem α -> Prop} :
    Ends (operand self named (indexOf named)) heap post <-> post val heap := by
  cases named with
  | outside given =>
      have same : given = val := names
      rw [same]
      exact ends_pure _ _ _
  | slot slot => exact ends_elem holds names

/-! ## The back -/

/-- An elem is written to the slot behind the elems. -/
theorem ends_append (holds : Holds heap.blocks self elems) (room : self.len < self.cap)
    {post : Unit -> VecMem α -> Prop}
    (done : forall later : VecMem α,
      Tends heap.blocks later.blocks self { self with len := self.len + 1 } (elems ++ [val]) -> post () later) :
    Ends (writeElem self self.len val) heap post := by
  rcases holds.cells with ⟨spare, held⟩
  have length := held.length
  rw [List.length_append, List.length_map] at length
  have len := holds.len
  cases spare with
  | nil =>
      rw [List.length_nil] at length
      omega
  | cons cell spare =>
      apply ends_writeElem held
      · rw [List.length_append, List.length_map, List.length_cons]
        omega
      · intro later rewrites
        have behind : (elems.map some ++ cell :: spare).set self.len (some val) =
            (elems ++ [val]).map some ++ spare := by
          rw [len, List.set_append_right _ _ (by rw [List.length_map]), List.length_map, Nat.sub_self,
            List.set_cons_zero, List.map_append, List.append_assoc]
          rfl
        rw [behind] at rewrites
        apply done later
        apply rewrites.tends
        rw [len, List.length_append]
        rfl

theorem ends_push {named : Operand α} (holds : Holds heap.blocks self elems) (names : Names elems val named)
    {post : Status × Vec -> VecMem α -> Prop}
    (refused : heap.Spared (post (.errNoMem, self)))
    (done : forall (after : Vec) (later : VecMem α), Tends heap.blocks later.blocks self after (elems ++ [val]) ->
      post (.ok, after) later) :
    Ends (push self named) heap post := by
  simp only [push, ends_bind, ends_assertVec holds.asserts, ends_aliasIdx names holds]
  apply ends_reserveOne holds
  · intro later same
    simp only [if_refused, ends_pure]
    exact refused later same
  · intro grown mid tends room len
    simp only [if_granted, ends_bind, ends_operand names tends.holds]
    apply ends_append tends.holds room
    intro later appended
    simp only [ends_assertVec appended.holds.asserts, ends_pure]
    exact done _ later (tends.trans appended)

theorem ends_addElem (holds : Holds heap.blocks self elems) {post : Status × Vec -> VecMem α -> Prop}
    (refused : heap.Spared (post (.errNoMem, self)))
    (done : forall (after : Vec) (later : VecMem α), Tends heap.blocks later.blocks self after (elems ++ [val]) ->
      post (.ok, after) later) :
    Ends (addElem self val) heap post := by
  simp only [addElem, addOne, ends_bind, ends_assertVec holds.asserts]
  apply ends_reserveOne holds
  · intro later same
    simp only [if_refused, ends_pure]
    exact refused later same
  · intro grown mid tends room len
    rcases tends.holds.cells with ⟨spare, held⟩
    have asserts : Asserts { grown with len := grown.len + 1 } := (held.with_len (grown.len + 1)).asserts room
    simp only [if_granted, ends_bind, ends_assertVec asserts, ends_pure]
    apply ends_append tends.holds room
    intro later appended
    exact done _ later (tends.trans appended)

theorem ends_pushAssumeCap {named : Operand α} (holds : Holds heap.blocks self elems)
    (names : Names elems val named) (room : self.len < self.cap) {post : Vec -> VecMem α -> Prop}
    (done : forall (after : Vec) (later : VecMem α), Tends heap.blocks later.blocks self after (elems ++ [val]) ->
      post after later) :
    Ends (pushAssumeCap self named) heap post := by
  simp only [pushAssumeCap, ends_bind, ends_require, holds.real, room, true_and]
  cases named with
  | outside given =>
      have same : given = val := names
      rw [same]
      simp only [ends_bind]
      apply ends_append holds room
      intro later appended
      exact (ends_pure _ _ _).mpr (done _ later appended)
  | slot slot =>
      have inside := holds.inside names
      simp only [copyElem, ends_bind, ends_require, Nat.ne_of_gt inside, ne_eq, not_false_eq_true, true_and,
        ends_elem holds names]
      apply ends_append holds room
      intro later appended
      exact (ends_pure _ _ _).mpr (done _ later appended)

theorem ends_pop (holds : Holds heap.blocks self (rest ++ [last])) {post : Vec -> VecMem α -> Prop}
    (done : forall after : Vec, Tends heap.blocks heap.blocks self after rest -> post after heap) :
    Ends (pop self) heap post := by
  have len := holds.len
  rw [List.length_append, List.length_singleton] at len
  have some_ : self.len > 0 := by omega
  simp only [pop, ends_bind, ends_require, holds.real, some_, true_and, ends_pure]
  exact done _ (holds.shorten (by omega))

/-- The elems, once an elem has been written where `out` points. -/
def putTo (elems : List α) (val : α) : Target -> List α
  | .outside => elems
  | .slot slot => elems.set slot val

/-- `out` is outside the vec, or one of its elems. -/
def Reaches (self : Vec) : Target -> Prop
  | .outside => True
  | .slot slot => slot < self.len

/-- An elem was written over, and the last one is dropped. -/
theorem Rewrites.replaced
    (rewrites : Rewrites blocks later self ((elems.map some ++ spare).set idx (some val)))
    (len : self.len = elems.length) (inside : idx < elems.length) :
    Tends blocks later self { self with len := self.len - 1 } (elems.set idx val).dropLast := by
  have some_ : elems.set idx val ≠ [] := by
    apply List.ne_nil_of_length_pos
    rw [List.length_set]
    omega
  rw [List.set_append_left _ _ (by rwa [List.length_map]), ← List.map_set, ← List.dropLast_append_getLast some_,
    List.map_append, List.append_assoc] at rewrites
  apply rewrites.tends
  rw [List.length_dropLast, List.length_set, len]

/-- The elem is read before anything is written. -/
theorem ends_popTo {out : Target} (holds : Holds heap.blocks self (rest ++ [last])) (reaches : Reaches self out)
    {post : α × Vec -> VecMem α -> Prop}
    (done : forall (after : Vec) (later : VecMem α),
      Tends heap.blocks later.blocks self after (putTo (rest ++ [last]) last out).dropLast ->
      post (last, after) later) :
    Ends (popTo self out) heap post := by
  have len := holds.len
  rw [List.length_append, List.length_singleton] at len
  have some_ : self.len > 0 := by omega
  have back : (rest ++ [last])[self.len - 1]? = some last := by
    rw [len, Nat.add_sub_cancel]
    exact List.getElem?_concat_length
  rcases holds.found back with ⟨spare, held, found⟩
  simp only [popTo, ends_bind, ends_assertVec holds.asserts, ends_require, some_, true_and,
    ends_readElem (held.with_len (self.len - 1)) found]
  cases out with
  | outside =>
      have short : Tends heap.blocks heap.blocks self { self with len := self.len - 1 } rest :=
        holds.shorten (by omega)
      rw [putTo, List.dropLast_concat] at done
      simp only [ends_bind, ends_pure, ends_assertVec short.holds.asserts]
      exact done _ heap short
  | slot slot =>
      have inside : slot < (rest ++ [last]).length := by
        rw [← holds.len]
        exact reaches
      simp only [ends_bind]
      apply ends_writeElem (held.with_len (self.len - 1))
      · rw [List.length_append, List.length_map]
        omega
      · intro later rewrites
        have tends := rewrites.of_len.replaced holds.len inside
        simp only [ends_assertVec tends.holds.asserts, ends_pure]
        exact done _ later tends

/-- The last elem takes the place of another one. -/
theorem ends_swapRemove (holds : Holds heap.blocks self (rest ++ [last])) (inside : idx < self.len)
    {post : Vec -> VecMem α -> Prop}
    (done : forall (after : Vec) (later : VecMem α),
      Tends heap.blocks later.blocks self after ((rest ++ [last]).set idx last).dropLast -> post after later) :
    Ends (swapRemove α self idx) heap post := by
  have len := holds.len
  rw [List.length_append, List.length_singleton] at len
  have back : (rest ++ [last])[self.len - 1]? = some last := by
    rw [len, Nat.add_sub_cancel]
    exact List.getElem?_concat_length
  rcases holds.found back with ⟨spare, held, found⟩
  simp only [swapRemove, ends_bind, ends_assertVec holds.asserts, ends_require, inside, true_and]
  by_cases atBack : idx = self.len - 1
  · have short : Tends heap.blocks heap.blocks self { self with len := self.len - 1 } rest := holds.shorten (by omega)
    have same : ((rest ++ [last]).set idx last).dropLast = rest := by
      rw [atBack, len, Nat.add_sub_cancel, List.set_append_right _ _ (Nat.le_refl _), Nat.sub_self, List.set_cons_zero,
        List.dropLast_concat]
    rw [same] at done
    simp only [ne_eq, atBack, not_true_eq_false, if_false, ends_bind, ends_assertVec short.holds.asserts,
      ends_pure]
    exact done _ heap short
  · simp only [ne_eq, atBack, not_false_eq_true, if_true, ends_bind]
    apply ends_copyElem (held.with_len (self.len - 1)) found
    · rw [List.length_append, List.length_map, ← holds.len]
      omega
    · exact atBack
    · intro later rewrites
      have tends := rewrites.of_len.replaced holds.len (by rw [← holds.len]; exact inside)
      simp only [ends_assertVec tends.holds.asserts, ends_pure]
      exact done _ later tends

/-! ## Gaps -/

theorem ends_insertRaw (holds : Holds heap.blocks self elems) (inside : idx ≤ self.len)
    {post : Status × Vec -> VecMem α -> Prop}
    (refused : heap.Spared (post (.errNoMem, self)))
    (done : forall (after : Vec) (later : VecMem α),
      Tends heap.blocks later.blocks self after (elems.take idx ++ src ++ elems.drop idx) -> post (.ok, after) later) :
    Ends (insertRaw self idx src) heap post := by
  unfold insertRaw
  by_cases none_ : src.length = 0
  · rw [if_pos none_, ends_pure]
    apply done self heap
    rw [List.eq_nil_of_length_eq_zero none_, List.append_nil, List.take_append_drop]
    exact Tends.refl holds
  · simp only [if_neg none_, ends_bind]
    apply ends_openGap holds inside
    · intro later same
      simp only [if_refused, ends_pure]
      exact refused later same
    · intro grown mid opened gap spare tends length rewrites
      have start : idx = ((elems.take idx).map some).length := by
        have len := holds.len
        rw [List.length_map, List.length_take]
        omega
      simp only [if_granted, ends_bind]
      apply ends_writeElems (rewrites.cells.with_len _) length.symm (List.ne_nil_of_length_pos (by omega)) start rfl
      intro later written
      have whole : (elems.take idx).map some ++ src.map some ++ ((elems.drop idx).map some ++ spare) =
          (elems.take idx ++ src ++ elems.drop idx).map some ++ spare := by
        simp only [List.map_append, List.append_assoc]
      rw [whole] at written
      have now : Tends heap.blocks later.blocks self { grown with len := elems.length + src.length }
          (elems.take idx ++ src ++ elems.drop idx) := by
        apply tends.trans ((rewrites.trans written.of_len).tends _)
        simp only [List.length_append, List.length_take, List.length_drop]
        omega
      simp only [ends_assertVec now.holds.asserts, ends_pure]
      exact done _ later now

theorem ends_insert {named : Operand α} (holds : Holds heap.blocks self elems) (names : Names elems val named)
    (inside : idx ≤ self.len) {post : Status × Vec -> VecMem α -> Prop}
    (refused : heap.Spared (post (.errNoMem, self)))
    (done : forall (after : Vec) (later : VecMem α),
      Tends heap.blocks later.blocks self after (elems.take idx ++ [val] ++ elems.drop idx) ->
      post (.ok, after) later) :
    Ends (insert self idx named) heap post := by
  simp only [insert, ends_bind, ends_assertVec holds.asserts, ends_require, inside, true_and,
    ends_aliasIdx names holds]
  cases named with
  | outside given =>
      have same : given = val := names
      rw [same]
      exact ends_insertRaw holds inside refused done
  | slot slot =>
      have found : elems[slot]? = some val := names
      simp only [indexOf, ends_bind]
      apply ends_openGap holds inside
      · intro later same
        simp only [if_refused, ends_pure]
        exact refused later same
      · intro grown mid opened gap spare tends length rewrites
        rcases List.length_eq_one_iff.mp length with ⟨hole, rfl⟩
        have len := holds.len
        have front : ((elems.take idx).map some).length = idx := by
          rw [List.length_map, List.length_take]
          omega
        -- the elem it named, in its place beside the gap
        have there : ((elems.take idx).map some ++ [hole] ++ ((elems.drop idx).map some ++ spare))[if slot < idx
            then slot else slot + 1]? = some (some val) := by
          have below := (List.getElem?_eq_some_iff.mp found).1
          by_cases before : slot < idx
          · rw [if_pos before, List.append_assoc, List.getElem?_append_left (by omega), List.getElem?_map,
              List.getElem?_take_of_lt before, found]
            rfl
          · rw [if_neg before, List.getElem?_append_right (by simp only [List.length_append, front, List.length_singleton]; omega),
              List.getElem?_append_left (by
                simp only [List.length_append, front, List.length_singleton, List.length_map, List.length_drop]
                omega), List.getElem?_map, List.getElem?_drop, List.length_append, front, List.length_singleton]
            have place : idx + (slot + 1 - (idx + 1)) = slot := by omega
            rw [place, found]
            rfl
        simp only [if_granted, ends_bind]
        apply ends_copyElem (rewrites.cells.with_len _) there
        · simp only [List.length_append, front, List.length_singleton]
          omega
        · split <;> omega
        · intro later written
          have whole : ((elems.take idx).map some ++ [hole] ++ ((elems.drop idx).map some ++ spare)).set idx (some val) =
              (elems.take idx ++ [val] ++ elems.drop idx).map some ++ spare := by
            rw [List.append_assoc, List.set_append_right _ _ (Nat.le_of_eq front), front, Nat.sub_self]
            simp only [List.singleton_append, List.set_cons_zero, List.map_append, List.append_assoc]
            rfl
          rw [whole] at written
          have now : Tends heap.blocks later.blocks self { grown with len := elems.length + 1 }
              (elems.take idx ++ [val] ++ elems.drop idx) := by
            apply tends.trans ((rewrites.trans written.of_len).tends _)
            simp only [List.length_append, List.length_take, List.length_drop, List.length_singleton]
            omega
          simp only [ends_assertVec now.holds.asserts, ends_pure]
          exact done _ later now

theorem ends_insertSpan {view : SpanView α} (holds : Holds heap.blocks self elems) (alike : self.elem = view.elem)
    (inside : idx ≤ self.len) {post : Status × Vec -> VecMem α -> Prop}
    (refused : heap.Spared (post (.errNoMem, self)))
    (done : forall (after : Vec) (later : VecMem α),
      Tends heap.blocks later.blocks self after (elems.take idx ++ view.elems ++ elems.drop idx) ->
      post (.ok, after) later) :
    Ends (insertSpan self idx view) heap post := by
  simp only [insertSpan, ends_bind, ends_assertVec holds.asserts, ends_require, alike, inside, true_and]
  exact ends_insertRaw holds inside refused done

theorem ends_extend {view : SpanView α} (holds : Holds heap.blocks self elems) (alike : self.elem = view.elem)
    {post : Status × Vec -> VecMem α -> Prop}
    (refused : heap.Spared (post (.errNoMem, self)))
    (done : forall (after : Vec) (later : VecMem α),
      Tends heap.blocks later.blocks self after (elems ++ view.elems) -> post (.ok, after) later) :
    Ends (extend self view) heap post := by
  simp only [extend, ends_bind, ends_assertVec holds.asserts, ends_require, alike, true_and]
  apply ends_insertSpan holds alike (Nat.le_refl _) refused
  intro after later tends
  rw [holds.len, List.take_length, List.drop_length, List.append_nil] at tends
  exact done after later tends

/-- The elems behind those that are removed move down over them. -/
theorem ends_removeRange (holds : Holds heap.blocks self elems) (inside : idx ≤ self.len)
    (few : count ≤ self.len - idx) {post : Vec -> VecMem α -> Prop}
    (done : forall (after : Vec) (later : VecMem α),
      Tends heap.blocks later.blocks self after (elems.take idx ++ elems.drop (idx + count)) -> post after later) :
    Ends (removeRange α self idx count) heap post := by
  have len := holds.len
  simp only [removeRange, ends_bind, ends_assertVec holds.asserts, ends_require, inside, few, true_and]
  by_cases none_ : count = 0
  · rw [if_pos none_, ends_pure]
    apply done self heap
    rw [none_, Nat.add_zero, List.take_append_drop]
    exact Tends.refl holds
  · have back : (elems.drop (idx + count)).length = self.len - idx - count := by
      rw [List.length_drop]
      omega
    have front : ((elems.take idx).map some).length = idx := by
      rw [List.length_map, List.length_take]
      omega
    have lengths : self.len - count = (elems.take idx ++ elems.drop (idx + count)).length := by
      simp only [List.length_append, List.length_take, List.length_drop]
      omega
    rw [if_neg none_]
    by_cases tail : self.len - idx - count > 0
    · rcases holds.cells with ⟨spare, held⟩
      have split : elems.map some ++ spare =
          (elems.take (idx + count)).map some ++ (elems.drop (idx + count)).map some ++ spare := by
        rw [← List.map_append, List.take_append_drop]
      have recut : (elems.take (idx + count)).map some ++ (elems.drop (idx + count)).map some ++ spare =
          (elems.take idx).map some ++ ((elems.drop idx).map some ++ spare).take (elems.drop (idx + count)).length ++
            ((elems.drop idx).map some ++ spare).drop (elems.drop (idx + count)).length := by
        rw [← split, List.append_assoc, List.take_append_drop, ← List.append_assoc, ← List.map_append,
          List.take_append_drop]
      rw [split] at held
      simp only [if_pos tail, ends_bind]
      apply ends_moveElems held _ _ back.symm recut
      · simp only [List.length_take, List.length_append, List.length_map, List.length_drop]
        omega
      · exact front.symm
      · intro later rewrites
        rw [← List.map_append] at rewrites
        have tends := rewrites.tends lengths
        simp only [ends_assertVec tends.holds.asserts, ends_pure]
        exact done _ later tends
      · intro empty
        rw [empty, List.length_nil] at back
        omega
      · rw [List.length_map, List.length_take]
        omega
    · have empty : elems.drop (idx + count) = [] := List.eq_nil_of_length_eq_zero (by omega)
      rw [empty, List.append_nil] at done lengths
      have whole : Holds heap.blocks self (elems.take idx ++ elems.drop idx) := by
        rw [List.take_append_drop]
        exact holds
      have tends := whole.shorten lengths
      simp only [if_neg tail, ends_bind, ends_assertVec tends.holds.asserts, ends_pure]
      exact done _ heap tends

theorem ends_remove (holds : Holds heap.blocks self elems) (inside : idx < self.len)
    {post : Vec -> VecMem α -> Prop}
    (done : forall (after : Vec) (later : VecMem α),
      Tends heap.blocks later.blocks self after (elems.eraseIdx idx) -> post after later) :
    Ends (remove α self idx) heap post := by
  simp only [remove, ends_bind, ends_assertVec holds.asserts, ends_require, inside, true_and]
  rw [List.eraseIdx_eq_take_drop_succ] at done
  exact ends_removeRange holds (Nat.le_of_lt inside) (by omega) done

/-! ## The rest of the operations -/

theorem ends_setElem (holds : Holds heap.blocks self elems) (inside : idx < self.len)
    {post : Unit -> VecMem α -> Prop}
    (done : forall later : VecMem α, Tends heap.blocks later.blocks self self (elems.set idx val) -> post () later) :
    Ends (writeElem self idx val) heap post := by
  rcases holds.cells with ⟨spare, held⟩
  rw [holds.len] at inside
  apply ends_writeElem held
  · rw [List.length_append, List.length_map]
    omega
  · intro later rewrites
    rw [List.set_append_left _ _ (by rwa [List.length_map]), ← List.map_set] at rewrites
    apply done later
    apply rewrites.tends_same
    rw [List.length_set, holds.len]

theorem ends_set {named : Operand α} (holds : Holds heap.blocks self elems) (names : Names elems val named)
    (inside : idx < self.len) {post : Unit -> VecMem α -> Prop}
    (done : forall later : VecMem α, Tends heap.blocks later.blocks self self (elems.set idx val) -> post () later) :
    Ends (set self idx named) heap post := by
  simp only [set, ends_bind, ends_assertVec holds.asserts, ends_require, inside, true_and]
  cases named with
  | outside given =>
      have same : given = val := names
      rw [same]
      exact ends_setElem holds inside done
  | slot slot =>
      simp only [ends_bind, ends_elem holds names]
      exact ends_setElem holds inside done

theorem ends_get (holds : Holds heap.blocks self elems) (found : elems[idx]? = some val)
    {post : α -> VecMem α -> Prop} : Ends (get self idx) heap post <-> post val heap := by
  simp only [Vec.get, ends_bind, ends_require, holds.real, holds.inside found, true_and, ends_elem holds found]

theorem ends_back {rest : List α} {last : α} (holds : Holds heap.blocks self (rest ++ [last]))
    {post : α -> VecMem α -> Prop} : Ends (back self) heap post <-> post last heap := by
  have len := holds.len
  rw [List.length_append, List.length_singleton] at len
  have found : (rest ++ [last])[self.len - 1]? = some last := by
    rw [len, Nat.add_sub_cancel]
    exact List.getElem?_concat_length
  have some_ : 0 < self.len := len ▸ Nat.succ_pos _
  simp only [back, ends_bind, ends_require, holds.real, some_, true_and, ends_elem holds found]

/-- The elems of the vec as a span. -/
def span (self : Vec) : Span := ⟨⟨self.data, 0, self.len⟩, self.elem⟩

theorem ends_toSpan (holds : Holds blocks self elems) {s : S} {post : Span -> S -> Prop} :
    Ends (toSpan self) s post <-> post (span self) s := by
  rcases holds.asserts with ⟨isType, load, some_, _, real⟩
  have present : self.data.isSome = true ∨ self.len = 0 := by
    rcases some_ with none_ | some_
    · exact Or.inr (by omega)
    · exact Or.inl some_
  simp only [toSpan, ends_bind, ends_require, real, present, isType, true_and, ends_pure]
  rfl

theorem Cells.span_shows (held : Cells blocks self (elems.map some ++ spare)) (len : self.len = elems.length) :
    Slice.Shows blocks (span self).toSlice (elems.map some) := by
  refine ⟨by rw [List.length_map, ← len]; rfl, ?_⟩
  rcases held.owns with ⟨none_, empty⟩ | ⟨addr, at_, _, block⟩
  · have length := held.length
    rw [empty, List.length_append] at length
    exact Or.inl ⟨none_, List.eq_nil_of_length_eq_zero (by omega)⟩
  · exact Or.inr ⟨addr, _, [], spare, at_, block, rfl⟩

theorem Holds.span_holds (holds : Holds blocks self elems) : Span.Holds blocks (span self) elems := by
  rcases holds.cells with ⟨spare, held⟩
  refine ⟨held.isType, ?_, held.span_shows holds.len⟩
  exact Nat.lt_of_le_of_lt (Nat.mul_le_mul_left _ holds.load) held.fits

/-- What is done to the span is done to the vec. -/
theorem Holds.placed (holds : Holds blocks self elems) (length : rest.length = elems.length)
    (same : later = Span.place blocks (span self) rest) : Tends blocks later self self rest := by
  rcases holds.cells with ⟨spare, held⟩
  have lengths : (rest.map some).length = (elems.map some).length := by
    rw [List.length_map, List.length_map, length]
  have whole : Slice.fill blocks (span self).toSlice (rest.map some) =
      Slice.fill blocks self.slots (rest.map some ++ spare) := by
    have part := (show Slice.Shows blocks self.slots ([] ++ elems.map some ++ spare) from held.shows_).fill_part lengths
    have cut : self.slots.part ([] : List (Option α)).length (elems.map some).length = (span self).toSlice := by
      rw [List.length_map, ← holds.len]
      rfl
    rw [cut] at part
    exact part
  have filled := held.filled (by rw [List.length_append, List.length_append, lengths]) (same.trans whole)
  exact filled.tends_same (by rw [holds.len, length])

theorem ends_swapElems {i j : Nat} (holds : Holds heap.blocks self elems) (first : i < self.len)
    (second : j < self.len) {post : Unit -> VecMem α -> Prop}
    (done : forall later : VecMem α, Tends heap.blocks later.blocks self self (Span.exchanged elems i j) ->
      post () later) :
    Ends (swapElems α self i j) heap post := by
  simp only [swapElems, ends_bind, ends_assertVec holds.asserts, ends_require, first, second, true_and,
    ends_toSpan holds]
  rw [holds.len] at first second
  apply Span.ends_swapElems holds.span_holds first second
  intro later same
  exact done later (holds.placed (Span.length_exchanged i j) same)

theorem ends_truncate (holds : Holds heap.blocks self elems) {post : Vec -> VecMem α -> Prop}
    (done : forall after : Vec, Tends heap.blocks heap.blocks self after (elems.take newLen) -> post after heap) :
    Ends (truncate self newLen) heap post := by
  simp only [truncate, ends_bind, ends_assertVec holds.asserts]
  by_cases fewer : newLen < self.len
  · have split : Holds heap.blocks self (elems.take newLen ++ elems.drop newLen) := by
      rw [List.take_append_drop]
      exact holds
    have tends : Tends heap.blocks heap.blocks self { self with len := newLen } (elems.take newLen) := by
      apply split.shorten
      rw [List.length_take, ← holds.len, Nat.min_eq_left (Nat.le_of_lt fewer)]
    simp only [if_pos fewer, ends_assertVec tends.holds.asserts, ends_pure]
    exact done _ tends
  · rw [List.take_of_length_le (by rw [← holds.len]; omega)] at done
    simp only [if_neg fewer, ends_assertVec holds.asserts, ends_pure]
    exact done self (Tends.refl holds)

theorem ends_clear (holds : Holds heap.blocks self elems) {post : Vec -> VecMem α -> Prop}
    (done : forall after : Vec, Tends heap.blocks heap.blocks self after [] -> post after heap) :
    Ends (clear self) heap post := by
  have whole : Holds heap.blocks self ([] ++ elems) := holds
  simp only [clear, ends_bind, ends_require, holds.real, true_and, ends_pure]
  exact done _ (whole.shorten rfl)

theorem ends_releaseData (holds : Holds heap.blocks self ([] : List α)) {post : Vec -> VecMem α -> Prop}
    (done : forall (after : Vec) (later : VecMem α), Tends heap.blocks later.blocks self after [] ->
      post after later) :
    Ends (releaseData α self) heap post := by
  rcases holds.cells with ⟨spare, held⟩
  simp only [releaseData, ends_bind, blockLayout_eq held]
  apply held.owns.ends_dealloc held.real held.size_pos
  intro later gone
  exact (ends_pure _ _ _).mpr
    (done _ later ⟨Holds.of_bare held.real held.isType rfl rfl rfl, gone, rfl, rfl⟩)

theorem ends_shrinkToFit (holds : Holds heap.blocks self elems) {post : Status × Vec -> VecMem α -> Prop}
    (refused : heap.Spared (post (.errNoMem, self)))
    (done : forall (after : Vec) (later : VecMem α), Tends heap.blocks later.blocks self after elems ->
      post (.ok, after) later) :
    Ends (shrinkToFit α self) heap post := by
  simp only [shrinkToFit, ends_bind, ends_assertVec holds.asserts]
  by_cases tight : self.len = self.cap
  · rw [if_pos tight, ends_pure]
    exact done self heap (Tends.refl holds)
  · rw [if_neg tight]
    by_cases empty : self.len = 0
    · have none_ : elems = [] := List.eq_nil_of_length_eq_zero (by rw [← holds.len]; exact empty)
      subst none_
      simp only [if_pos empty, ends_bind]
      apply ends_releaseData holds
      intro after later tends
      simp only [ends_assertVec tends.holds.asserts, ends_pure]
      exact done after later tends
    · simp only [if_neg empty, ends_bind]
      apply ends_setCap holds (Nat.le_refl _) (Nat.pos_of_ne_zero empty)
      · intro later same
        simp only [ends_assertVec holds.asserts, ends_pure]
        exact refused later same
      · intro after later tends _ _
        simp only [ends_assertVec tends.holds.asserts, ends_pure]
        exact done after later tends

theorem ends_resize {zero : α} (holds : Holds heap.blocks self elems) {post : Status × Vec -> VecMem α -> Prop}
    (refused : heap.Spared (post (.errNoMem, self)))
    (done : forall (after : Vec) (later : VecMem α),
      Tends heap.blocks later.blocks self after
        (elems.take newLen ++ List.replicate (newLen - elems.length) zero) -> post (.ok, after) later) :
    Ends (resize zero self newLen) heap post := by
  have len := holds.len
  simp only [resize, ends_bind, ends_assertVec holds.asserts]
  by_cases fewer : newLen ≤ self.len
  · have split : Holds heap.blocks self (elems.take newLen ++ elems.drop newLen) := by
      rw [List.take_append_drop]
      exact holds
    have tends : Tends heap.blocks heap.blocks self { self with len := newLen } (elems.take newLen) := by
      apply split.shorten
      rw [List.length_take, Nat.min_eq_left (by omega)]
    have nothing : newLen - elems.length = 0 := by omega
    rw [nothing, List.replicate_zero, List.append_nil] at done
    simp only [if_pos fewer, ends_bind, ends_assertVec tends.holds.asserts, ends_pure]
    exact done _ heap tends
  · rw [List.take_of_length_le (by omega)] at done
    simp only [if_neg fewer, ends_bind]
    apply ends_reserveFor holds (by omega)
    · intro later same
      simp only [if_refused, ends_pure]
      exact refused later same
    · intro grown mid tends room sameLen
      rcases tends.holds.cells with ⟨spare, held⟩
      have total := held.length
      rw [List.length_append, List.length_map] at total
      have more : (List.replicate (newLen - elems.length) zero).length = (spare.take (newLen - elems.length)).length := by
        rw [List.length_replicate, List.length_take]
        omega
      have split : elems.map some ++ spare =
          elems.map some ++ spare.take (newLen - elems.length) ++ spare.drop (newLen - elems.length) := by
        rw [List.append_assoc, List.take_append_drop]
      rw [split] at held
      simp only [if_granted, ends_bind, sameLen, len]
      apply ends_writeElems held more
      · apply List.ne_nil_of_length_pos
        rw [List.length_replicate]
        omega
      · rw [List.length_map]
      · rw [List.length_replicate]
      · intro later rewrites
        rw [← List.map_append] at rewrites
        have now : Tends heap.blocks later.blocks self { grown with len := newLen }
            (elems ++ List.replicate (newLen - elems.length) zero) := by
          apply tends.trans (rewrites.tends _)
          rw [List.length_append, List.length_replicate]
          omega
        simp only [ends_assertVec now.holds.asserts, ends_pure]
        exact done _ later now

/-- The predicate is asked about each elem once, in order, and those it keeps close up. -/
theorem ends_retain {pred : Pred α C} {ctx : C} (holds : Holds heap.blocks self elems)
    {post : Vec × C -> VecMem α -> Prop}
    (done : forall (after : Vec) (later : VecMem α),
      Tends heap.blocks later.blocks self after (sift pred ctx elems).1 ->
      post (after, (sift pred ctx elems).2) later) :
    Ends (retain self pred ctx) heap post := by
  have len := holds.len
  simp only [retain, ends_bind, ends_assertVec holds.asserts]
  apply ends_countUp (fun i vars later =>
    exists row, Tends heap.blocks later.blocks self self row ∧ Compacting pred ctx elems i vars row)
    (show 0 + self.len = self.len by omega)
  · rintro i vars later _ below ⟨row, tends, state⟩
    have inside : i < elems.length := by omega
    have few := state.count_le
    simp only [ends_bind, ends_elem tends.holds (state.unread inside)]
    cases answer : (pred elems[i] vars.2).1 with
    | false =>
        simp only [Bool.false_eq_true, if_false, ends_pure]
        exact ⟨row, tends, state.dropped inside answer⟩
    | true =>
        have kept := state.kept inside answer
        simp only [if_true]
        by_cases inPlace : vars.1 = i
        · simp only [inPlace, ne_eq, not_true_eq_false, if_false, ends_pure]
          rw [inPlace] at kept
          have still : row.set i elems[i] = row := by
            have there := state.unread inside
            rcases List.getElem?_eq_some_iff.mp there with ⟨within, same⟩
            rw [← same, List.set_getElem_self]
          rw [still] at kept
          exact ⟨row, tends, kept⟩
        · simp only [ne_eq, inPlace, not_false_eq_true, if_true, copyElem, ends_bind, ends_require, true_and,
            ends_elem tends.holds (state.unread inside)]
          apply ends_setElem tends.holds (by omega)
          intro last written
          simp only [ends_pure]
          exact ⟨_, tends.trans written, kept⟩
  · rintro vars later ⟨row, tends, state⟩
    rcases state.finished len with ⟨kept, left⟩
    have split : Holds later.blocks self (row.take vars.1 ++ row.drop vars.1) := by
      rw [List.take_append_drop]
      exact tends.holds
    have few := state.count_le
    have now : Tends heap.blocks later.blocks self { self with len := vars.1 } (row.take vars.1) := by
      apply tends.trans (split.shorten _)
      rw [List.length_take, state.length]
      omega
    rw [kept] at now
    simp only [ends_assertVec now.holds.asserts, ends_pure, left]
    exact done _ later now
  · exact ⟨elems, Tends.refl holds, Compacting.start⟩

end Vec
end TerseDsa
