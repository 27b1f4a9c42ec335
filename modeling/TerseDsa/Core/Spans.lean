import TerseDsa.Alloc.Wrappers
import TerseDsa.Core.Cmp
import TerseDsa.Core.Layout
import TerseDsa.Foundation.Slices

namespace TerseDsa

open Foundation Run

/-!
# Spans over memory

A span is a slice of a block of elems.  The slots of the block may be unset,
and reading one that is goes wrong.  `Span.Holds` says which elems a span
shows and `Span.place` is the memory after they were replaced; every operation
on one span is told by these two.
-/

/-- The memory behind spans. -/
abbrev SpanMem (α : Type) := AlHeap (List (Option α))

/-- `tda_Span` and `tda_SpanMut`. -/
structure Span extends Slice where
  elem : Layout

namespace Span

variable {α S : Type} {heap : SpanMem α} {span dst : Span} {blocks : Blocks AlTag (List (Option α))}
  {elems next left mid right : List α} {cells : List (Option α)} {idx count : Nat}

/-- `TDA_SPAN_ASSERT`. -/
def Asserts (span : Span) : Prop := (span.data.isSome = true ∨ span.len = 0) ∧ span.elem.isType = true

instance (span : Span) : Decidable span.Asserts := by
  unfold Asserts
  infer_instance

def assertSpan (span : Span) : Run S Unit := require span.Asserts

/-- `tda_elems_layout`. -/
def elemsLayout (elem : Layout) (len : Nat) : Layout := ⟨wrapMul elem.size len, elem.align⟩

/-- `tda_span_overlap`. -/
def Overlap (a b : Span) : Prop :=
  a.len ≠ 0 ∧ b.len ≠ 0 ∧ a.data = b.data ∧ a.start < b.start + b.len ∧ b.start < a.start + a.len

instance (a b : Span) : Decidable (Overlap a b) := by
  unfold Overlap
  infer_instance

/-- `tda_span_sub`. -/
def sub (span : Span) (idx count : Nat) : Run S Span := do
  assertSpan span
  require (idx ≤ span.len)
  require (count ≤ span.len - idx)
  return ⟨span.toSlice.part idx count, span.elem⟩

/-- What `tda_span_get` points at. -/
def get (span : Span) (idx : Nat) : Run (SpanMem α) α := do
  assertSpan span
  require (idx < span.len)
  let cell ← Slice.read span.toSlice idx
  demand cell

/-- `tda_span_swap_elems`. -/
def swapElems (α : Type) (span : Span) (i j : Nat) : Run (SpanMem α) Unit := do
  assertSpan span
  require (i < span.len)
  require (j < span.len)
  if i = j then
    return ()
  let a ← get (α := α) span i
  let b ← get (α := α) span j
  Slice.write span.toSlice i (some b)
  Slice.write span.toSlice j (some a)

/-- `tda_emit`, of the elem of `src` at `idx`; the two slots are different ones. -/
def emit (α : Type) (dst : Span) (write : Nat) (src : Span) (idx : Nat) : Run (SpanMem α) Nat := do
  let val ← get (α := α) src idx
  assertSpan dst
  require (write < dst.len)
  require (dst.data ≠ src.data ∨ dst.start + write ≠ src.start + idx)
  Slice.write dst.toSlice write (some val)
  return write + 1

/-- `memcpy` of `count` elems of `src` from `idx` on, to where `dst` has its elem at
`write`; the slots are different ones. -/
def copyElems (α : Type) (dst : Span) (write : Nat) (src : Span) (idx count : Nat) : Run (SpanMem α) Unit := do
  assertSpan dst
  require (write < dst.len)
  assertSpan src
  require (idx < src.len)
  require (dst.data ≠ src.data ∨ dst.start + write + count ≤ src.start + idx ∨
    src.start + idx + count ≤ dst.start + write)
  let cells : List (Option α) ← Slice.readRun src.toSlice idx count
  Slice.writeRun dst.toSlice write cells

/-- `tda_emit_rest`. -/
def emitRest (α : Type) (dst : Span) (write : Nat) (src : Span) (idx : Nat) : Run (SpanMem α) Nat := do
  if idx ≥ src.len then
    return write
  let count := src.len - idx
  require (count ≤ dst.len - write)
  copyElems α dst write src idx count
  return write + count

/-! ## What a span shows -/

/-- The span is over slots of the memory. -/
structure Over (blocks : Blocks AlTag (List (Option α))) (span : Span) (cells : List (Option α)) : Prop where
  isType : span.elem.isType = true
  fits : span.elem.size * span.len < sizeRange
  slots : Slice.Shows blocks span.toSlice cells

/-- The span shows these elems. -/
def Holds (blocks : Blocks AlTag (List (Option α))) (span : Span) (elems : List α) : Prop :=
  Over blocks span (elems.map some)

/-- The memory with other elems in the span. -/
def place (blocks : Blocks AlTag (List (Option α))) (span : Span) (elems : List α) :
    Blocks AlTag (List (Option α)) :=
  Slice.fill blocks span.toSlice (elems.map some)

/-- `count` elems from `idx` on. -/
def part (span : Span) (idx count : Nat) : Span := ⟨span.toSlice.part idx count, span.elem⟩

namespace Over

theorem length (laid : Over blocks span cells) : cells.length = span.len := laid.slots.length

theorem asserts (laid : Over blocks span cells) : span.Asserts := by
  refine ⟨?_, laid.isType⟩
  rcases laid.slots.row with ⟨_, empty⟩ | ⟨addr, _, _, _, at_, _⟩
  · rw [empty] at laid
    exact Or.inr laid.length.symm
  · exact Or.inl (by rw [at_]; rfl)

end Over

theorem ends_assertSpan (asserts : span.Asserts) {s : S} {post : Unit -> S -> Prop} :
    Ends (assertSpan span) s post <-> post () s := by
  simp only [assertSpan, ends_require, asserts, true_and]

namespace Holds

theorem length (holds : Holds blocks span elems) : elems.length = span.len := by
  rw [← Over.length holds, List.length_map]

theorem placed (holds : Holds blocks span elems) (length : next.length = elems.length) :
    Holds (place blocks span next) span next :=
  ⟨holds.isType, holds.fits, holds.slots.filled (by rw [List.length_map, List.length_map, length])⟩

theorem place_same (holds : Holds blocks span elems) : place blocks span elems = blocks := holds.slots.fill_same

theorem place_place (holds : Holds blocks span elems) (length : mid.length = elems.length)
    (lengthNext : next.length = elems.length) : place (place blocks span mid) span next = place blocks span next :=
  holds.slots.fill_fill (by rw [List.length_map, List.length_map, length])
    (by rw [List.length_map, List.length_map, lengthNext])

theorem part (holds : Holds blocks span (left ++ mid ++ right)) :
    Holds blocks (span.part left.length mid.length) mid := by
  have few : mid.length ≤ span.len := by
    have total := holds.length
    simp only [List.length_append] at total
    omega
  refine ⟨holds.isType, Nat.lt_of_le_of_lt (Nat.mul_le_mul_left _ few) holds.fits, ?_⟩
  have shows_ := holds.slots
  rw [List.map_append, List.map_append] at shows_
  have shown := shows_.part
  rw [List.length_map, List.length_map] at shown
  exact shown

theorem place_part (holds : Holds blocks span (left ++ mid ++ right)) (length : next.length = mid.length) :
    place blocks (span.part left.length mid.length) next = place blocks span (left ++ next ++ right) := by
  have shows_ := holds.slots
  rw [List.map_append, List.map_append] at shows_
  have lengths : (next.map some).length = (mid.map some).length := by
    rw [List.length_map, List.length_map, length]
  have filled := shows_.fill_part lengths
  rw [List.length_map, List.length_map] at filled
  unfold place
  rw [List.map_append, List.map_append]
  exact filled

theorem unique {others : List α} (holds : Holds blocks span elems) (also : Holds blocks span others) :
    elems = others :=
  List.map_injective_iff.mpr (Option.some_injective α) (holds.slots.unique also.slots)

/-- A span that does not overlap shows what it did. -/
theorem beside {other : Span} {others : List α} (holds : Holds blocks span elems)
    (holdsOther : Holds blocks other others) (length : next.length = elems.length)
    (apart : Slice.Apart span.toSlice other.toSlice) : Holds (place blocks span next) other others :=
  ⟨holdsOther.isType, holdsOther.fits,
    holds.slots.beside holdsOther.slots (by rw [List.length_map, List.length_map, length]) apart⟩

end Holds

/-! ## Rules -/

theorem ends_sub (asserts : span.Asserts) (inside : idx + count ≤ span.len) {s : S} {post : Span -> S -> Prop} :
    Ends (sub span idx count) s post <-> post (span.part idx count) s := by
  have first : idx ≤ span.len := Nat.le_trans (Nat.le_add_right _ _) inside
  have second : count ≤ span.len - idx := Nat.le_sub_of_add_le' inside
  simp only [sub, ends_bind, ends_assertSpan asserts, ends_require, first, second, true_and, ends_pure]
  rfl

theorem ends_get (holds : Holds heap.blocks span elems) (inside : idx < elems.length)
    {post : α -> SpanMem α -> Prop} : Ends (get span idx) heap post <-> post elems[idx] heap := by
  have within : idx < (elems.map some).length := by rwa [List.length_map]
  have below : idx < span.len := holds.length ▸ inside
  simp only [get, ends_bind, ends_assertSpan (Over.asserts holds), ends_require, below, true_and,
    Slice.ends_read holds.slots within, List.getElem_map, ends_demand_some]

theorem ends_setSlot (holds : Holds heap.blocks span elems) (inside : idx < elems.length) {val : α}
    {post : Unit -> SpanMem α -> Prop}
    (done : forall later : SpanMem α, later.blocks = place heap.blocks span (elems.set idx val) -> post () later) :
    Ends (Slice.write span.toSlice idx (some val)) heap post := by
  apply Slice.ends_write holds.slots (by rwa [List.length_map])
  intro later same
  apply done later
  rw [same, place, List.map_set]

/-- Two elems in each other's place. -/
def exchanged (elems : List α) (i j : Nat) : List α :=
  match elems[i]?, elems[j]? with
  | some a, some b => (elems.set i b).set j a
  | _, _ => elems

theorem length_exchanged (i j : Nat) : (exchanged elems i j).length = elems.length := by
  unfold exchanged
  split
  · rw [List.length_set, List.length_set]
  · rfl

theorem ends_swapElems {i j : Nat} (holds : Holds heap.blocks span elems) (first : i < elems.length)
    (second : j < elems.length) {post : Unit -> SpanMem α -> Prop}
    (done : forall later : SpanMem α, later.blocks = place heap.blocks span (exchanged elems i j) -> post () later) :
    Ends (swapElems α span i j) heap post := by
  have below := holds.length ▸ first
  have below' := holds.length ▸ second
  have swapped : exchanged elems i j = (elems.set i elems[j]).set j elems[i] := by
    simp only [exchanged, List.getElem?_eq_getElem first, List.getElem?_eq_getElem second]
  rw [swapped] at done
  simp only [swapElems, ends_bind, ends_assertSpan (Over.asserts holds), ends_require, below, below',
    true_and]
  by_cases same : i = j
  · subst same
    simp only [if_true, ends_pure]
    apply done
    rw [List.set_set, List.set_getElem_self, holds.place_same]
  · simp only [if_neg same, ends_bind, ends_get holds first, ends_get holds second]
    apply ends_setSlot holds first
    intro mid put
    have now : Holds mid.blocks span (elems.set i elems[j]) := by
      rw [put]
      exact holds.placed List.length_set
    apply ends_setSlot now (by rwa [List.length_set])
    intro later putBack
    apply done
    rw [putBack, put, holds.place_place List.length_set (by rw [List.length_set, List.length_set])]

theorem ends_emit {src : Span} {write : Nat} (laid : Over heap.blocks dst cells) (holds : Holds heap.blocks src elems)
    (room : write < cells.length) (inside : idx < elems.length)
    (different : dst.data ≠ src.data ∨ dst.start + write ≠ src.start + idx) {post : Nat -> SpanMem α -> Prop}
    (done : forall later : SpanMem α,
      later.blocks = Slice.fill heap.blocks dst.toSlice (cells.set write (some elems[idx])) ->
      post (write + 1) later) :
    Ends (emit α dst write src idx) heap post := by
  have below : write < dst.len := laid.length ▸ room
  simp only [emit, ends_bind, ends_get holds inside, ends_assertSpan laid.asserts, ends_require, below,
    different, true_and]
  apply Slice.ends_write laid.slots room
  intro later same
  exact (ends_pure _ _ _).mpr (done later same)

/-- The elem behind those of `left`. -/
theorem ends_get_at {val : α} (holds : Holds heap.blocks span (left ++ val :: right)) (at_ : idx = left.length)
    {post : α -> SpanMem α -> Prop} : Ends (get span idx) heap post <-> post val heap := by
  subst at_
  have inside : left.length < (left ++ val :: right).length := by
    rw [List.length_append, List.length_cons]
    omega
  rw [ends_get holds inside, List.getElem_append_right (Nat.le_refl _)]
  simp only [Nat.sub_self, List.getElem_cons_zero]

/-- An elem of `src` takes the place of an elem of `dst`. -/
theorem ends_emit_at {src : Span} {front back : List α} {write : Nat} {old val : α}
    (holds : Holds heap.blocks dst (front ++ old :: back)) (holdsSrc : Holds heap.blocks src (left ++ val :: right))
    (here : write = front.length) (there : idx = left.length)
    (different : dst.data ≠ src.data ∨ dst.start + write ≠ src.start + idx) {post : Nat -> SpanMem α -> Prop}
    (done : forall later : SpanMem α, later.blocks = place heap.blocks dst (front ++ val :: back) ->
      post (write + 1) later) :
    Ends (emit α dst write src idx) heap post := by
  subst here there
  have inside : left.length < (left ++ val :: right).length := by
    rw [List.length_append, List.length_cons]
    omega
  have room : front.length < ((front ++ old :: back).map some).length := by
    rw [List.length_map, List.length_append, List.length_cons]
    omega
  apply ends_emit holds holdsSrc room inside different
  intro later put
  apply done later
  rw [put, place, ← List.map_set, List.set_append_right _ _ (Nat.le_refl _),
    List.getElem_append_right (Nat.le_refl _)]
  simp only [Nat.sub_self, List.set_cons_zero, List.getElem_cons_zero]

/-- A run of elems is copied into other slots. -/
theorem ends_copyElems {src : Span} {front old back : List (Option α)} {write : Nat}
    (laid : Over heap.blocks dst (front ++ old ++ back)) (holds : Holds heap.blocks src (left ++ mid ++ right))
    (here : write = front.length) (there : idx = left.length) (many : count = mid.length)
    (length : old.length = mid.length) (room : old ++ back ≠ []) (some_ : mid ++ right ≠ [])
    (apart : dst.data ≠ src.data ∨ dst.start + write + count ≤ src.start + idx ∨
      src.start + idx + count ≤ dst.start + write)
    {post : Unit -> SpanMem α -> Prop}
    (done : forall later : SpanMem α,
      later.blocks = Slice.fill heap.blocks dst.toSlice (front ++ mid.map some ++ back) -> post () later) :
    Ends (copyElems α dst write src idx count) heap post := by
  subst here there many
  have below : front.length < dst.len := by
    have total := laid.length
    have more := List.length_pos_of_ne_nil room
    simp only [List.length_append] at total more
    omega
  have inside : left.length < src.len := by
    have total := holds.length
    have more := List.length_pos_of_ne_nil some_
    simp only [List.length_append] at total more
    omega
  have slots := holds.slots
  rw [List.map_append, List.map_append] at slots
  have nonempty : left.map some ++ mid.map some ++ right.map some ≠ [] := by
    intro empty
    simp only [List.append_eq_nil_iff, List.map_eq_nil_iff] at empty
    exact some_ (by rw [empty.1.2, empty.2]; rfl)
  have lengths : (left.map some).length = left.length ∧ (mid.map some).length = mid.length :=
    ⟨List.length_map _, List.length_map _⟩
  simp only [copyElems, ends_bind, ends_assertSpan laid.asserts, ends_assertSpan (Over.asserts holds),
    ends_require, below, inside, apart, true_and]
  rw [← lengths.1, ← lengths.2, Slice.ends_readRun slots nonempty]
  apply Slice.ends_writeRun laid.slots (by rw [List.length_map, length])
  · intro empty
    simp only [List.append_eq_nil_iff] at empty
    exact room (by rw [empty.1.2, empty.2]; rfl)
  · exact done

/-- The elems of `src` from `idx` on are copied to where there is room for them. -/
theorem ends_emitRest {src : Span} {front old back : List (Option α)} {write : Nat}
    (laid : Over heap.blocks dst (front ++ old ++ back)) (holds : Holds heap.blocks src (left ++ mid))
    (here : write = front.length) (there : idx = left.length) (length : old.length = mid.length)
    (apart : dst.data ≠ src.data ∨ dst.start + write + mid.length ≤ src.start + idx ∨
      src.start + idx + mid.length ≤ dst.start + write)
    {post : Nat -> SpanMem α -> Prop}
    (done : forall later : SpanMem α,
      later.blocks = Slice.fill heap.blocks dst.toSlice (front ++ mid.map some ++ back) ->
      post (write + mid.length) later) :
    Ends (emitRest α dst write src idx) heap post := by
  subst here there
  have total := holds.length
  rw [List.length_append] at total
  unfold emitRest
  by_cases none_ : left.length ≥ src.len
  · have empty : mid = [] := List.eq_nil_of_length_eq_zero (by omega)
    subst empty
    have nothing : old = [] := List.eq_nil_of_length_eq_zero length
    subst nothing
    rw [if_pos none_, ends_pure]
    exact done heap laid.slots.fill_same.symm
  · have count : src.len - left.length = mid.length := by omega
    have room := laid.length
    simp only [List.length_append] at room
    have enough : mid.length ≤ dst.len - front.length := by omega
    have some_ : mid ≠ [] := by
      intro empty
      rw [empty, List.length_nil] at total
      omega
    have holds' : Holds heap.blocks src (left ++ mid ++ []) := by rwa [List.append_nil]
    simp only [if_neg none_, count, ends_bind, ends_require, enough, true_and]
    apply ends_copyElems laid holds' rfl rfl rfl length _ _ apart
    · intro later same
      exact (ends_pure _ _ _).mpr (done later same)
    · intro empty
      rw [List.append_eq_nil_iff] at empty
      rw [empty.1] at length
      exact some_ (List.eq_nil_of_length_eq_zero length.symm)
    · rwa [List.append_nil]

/-! ## Writing one elem after another -/

section Writing

variable {src : Span}

theorem Over.filled {next : List (Option α)} (laid : Over heap.blocks dst cells) (length : next.length = cells.length) :
    Over (Slice.fill heap.blocks dst.toSlice next) dst next :=
  ⟨laid.isType, laid.fits, laid.slots.filled length⟩

/-- A span that does not overlap what is written shows what it did. -/
theorem Over.beside {next : List (Option α)} (laid : Over heap.blocks dst cells) (holds : Holds heap.blocks src elems)
    (length : next.length = cells.length) (apart : Slice.Apart dst.toSlice src.toSlice) :
    Holds (Slice.fill heap.blocks dst.toSlice next) src elems :=
  ⟨holds.isType, holds.fits, laid.slots.beside holds.slots length apart⟩

theorem apart_of_not_overlap (apart : ¬ Overlap dst src) : Slice.Apart dst.toSlice src.toSlice := by
  unfold Overlap at apart
  intro same
  by_contra overlap
  push Not at overlap
  exact apart ⟨overlap.1, overlap.2.1, same, by omega, by omega⟩

/-- The slots of `dst`, of which those of `out` are written. -/
def written (out : List α) (cells : List (Option α)) : List (Option α) := out.map some ++ cells.drop out.length

theorem length_written {out : List α} (fits : out.length ≤ cells.length) :
    (written out cells).length = cells.length := by
  unfold written
  rw [List.length_append, List.length_map, List.length_drop]
  omega

/-- The front of the span is written, and the span is over its slots as they are then. -/
theorem Over.asWritten {mid : SpanMem α} {out : List α} (laid : Over heap.blocks dst cells)
    (put : mid.blocks = Slice.fill heap.blocks dst.toSlice (written out cells)) (fits : out.length ≤ cells.length) :
    Over mid.blocks dst (written out cells) := by
  rw [put]
  exact laid.filled (length_written fits)

/-- The front of the span is written, and what is beside it is as it was. -/
theorem Over.besideWritten {mid : SpanMem α} {out : List α} (laid : Over heap.blocks dst cells)
    (holds : Holds heap.blocks src elems)
    (put : mid.blocks = Slice.fill heap.blocks dst.toSlice (written out cells)) (fits : out.length ≤ cells.length)
    (apart : Slice.Apart dst.toSlice src.toSlice) : Holds mid.blocks src elems := by
  rw [put]
  exact laid.beside holds (length_written fits) apart

theorem set_written {out : List α} {val : α} (fits : out.length < cells.length) :
    (written out cells).set out.length (some val) = written (out ++ [val]) cells := by
  unfold written
  rw [List.set_append_right _ _ (by rw [List.length_map]), List.length_map, Nat.sub_self,
    List.drop_eq_getElem_cons fits, List.set_cons_zero, List.map_append, List.append_assoc, List.length_append]
  rfl

/-- Slots of two slices that share none are different ones. -/
theorem slot_apart {write idx : Nat} (apart : Slice.Apart dst.toSlice src.toSlice) (room : write < dst.len)
    (inside : idx < src.len) : dst.data ≠ src.data ∨ dst.start + write ≠ src.start + idx := by
  by_cases same : dst.data = src.data
  · have away := apart same
    exact Or.inr (by omega)
  · exact Or.inl same

theorem run_apart {write idx count : Nat} (apart : Slice.Apart dst.toSlice src.toSlice) (room : write + count ≤ dst.len)
    (inside : idx + count ≤ src.len) : dst.data ≠ src.data ∨ dst.start + write + count ≤ src.start + idx ∨
      src.start + idx + count ≤ dst.start + write := by
  by_cases same : dst.data = src.data
  · have away := apart same
    exact Or.inr (by omega)
  · exact Or.inl same

theorem ends_emitWritten {out : List α} {idx : Nat} (laid : Over heap.blocks dst (written out cells))
    (holds : Holds heap.blocks src elems) (room : out.length < cells.length) (inside : idx < elems.length)
    (apart : Slice.Apart dst.toSlice src.toSlice) {post : Nat -> SpanMem α -> Prop}
    (done : forall later : SpanMem α,
      later.blocks = Slice.fill heap.blocks dst.toSlice (written (out ++ [elems[idx]]) cells) ->
      post (out.length + 1) later) :
    Ends (emit α dst out.length src idx) heap post := by
  have here : out.length < (written out cells).length := (length_written (Nat.le_of_lt room)).symm ▸ room
  apply ends_emit laid holds here inside (slot_apart apart (laid.length ▸ here) (holds.length ▸ inside))
  intro later put
  rw [set_written room] at put
  exact done later put

theorem ends_restWritten {out : List α} {idx : Nat} (laid : Over heap.blocks dst (written out cells))
    (holds : Holds heap.blocks src elems) (inside : idx ≤ elems.length)
    (room : out.length + (elems.drop idx).length ≤ cells.length) (apart : Slice.Apart dst.toSlice src.toSlice)
    {post : Nat -> SpanMem α -> Prop}
    (done : forall later : SpanMem α,
      later.blocks = Slice.fill heap.blocks dst.toSlice (written (out ++ elems.drop idx) cells) ->
      post (out ++ elems.drop idx).length later) :
    Ends (emitRest α dst out.length src idx) heap post := by
  have front : (out.map some).length = out.length := List.length_map _
  have read : (elems.take idx).length = idx := by rw [List.length_take, Nat.min_eq_left inside]
  have size : (cells.drop out.length).length = cells.length - out.length := List.length_drop
  have slots : written out cells = out.map some ++ (cells.drop out.length).take (elems.drop idx).length ++
      cells.drop (out.length + (elems.drop idx).length) := by
    rw [written, List.append_assoc, ← List.drop_drop, List.take_append_drop]
  have whole : elems = elems.take idx ++ elems.drop idx := (List.take_append_drop _ _).symm
  have total := laid.length
  rw [length_written (by omega)] at total
  have source := holds.length
  rw [whole, List.length_append, read] at source
  rw [slots] at laid
  have holds' : Holds heap.blocks src (elems.take idx ++ elems.drop idx) := whole ▸ holds
  have roomThere : out.length + (elems.drop idx).length ≤ dst.len := by omega
  have insideHere : idx + (elems.drop idx).length ≤ src.len := by omega
  apply ends_emitRest laid holds' front.symm read.symm (by rw [List.length_take]; omega)
    (run_apart apart roomThere insideHere)
  intro later put
  rw [← List.length_append]
  apply done later
  rw [put, written, List.map_append, List.length_append]

end Writing

/-! ## A block of its own -/

section OwnBlock

variable {buf : Addr} {tag : AlTag} {entry : Option (Block AlTag (List (Option α)))} {elem : Layout} {len : Nat}

/-- The span over a whole block. -/
def whole (buf : Addr) (elem : Layout) (len : Nat) : Span := ⟨⟨some buf, 0, len⟩, elem⟩

/-- A block that was free is not one that a span is in. -/
theorem Holds.away (holds : Holds blocks span elems) (free : blocks buf = none) (some_ : elems ≠ []) :
    span.data ≠ some buf := by
  intro here
  rcases holds.slots.row with ⟨_, empty⟩ | ⟨addr, tag, before, after, at_, row, _⟩
  · exact some_ (List.map_eq_nil_iff.mp empty)
  · rw [at_, Option.some_inj] at here
    rw [here, free] at row
    cases row

theorem Holds.beside_block (holds : Holds blocks span elems) (away : span.data ≠ some buf) :
    Holds (Function.update blocks buf entry) span elems := by
  refine ⟨holds.isType, holds.fits, holds.slots.length, ?_⟩
  rcases holds.slots.row with nowhere | ⟨addr, tag, before, after, at_, row, start⟩
  · exact Or.inl nowhere
  · refine Or.inr ⟨addr, tag, before, after, at_, ?_, start⟩
    rw [Function.update_of_ne, row]
    rintro rfl
    exact away at_

theorem over_block (isType : elem.isType = true) (fits : elem.size * len < sizeRange) (length : cells.length = len) :
    Over (Function.update blocks buf (some ⟨tag, cells⟩)) (whole buf elem len) cells := by
  refine ⟨isType, fits, length, Or.inr ⟨buf, tag, [], [], rfl, ?_, rfl⟩⟩
  rw [Function.update_self, List.nil_append, List.append_nil]

theorem fill_block {next : List (Option α)} (length : next.length = cells.length) :
    Slice.fill (Function.update blocks buf (some ⟨tag, cells⟩)) (whole buf elem len).toSlice next =
      Function.update blocks buf (some ⟨tag, next⟩) := by
  have row : Function.update blocks buf (some ⟨tag, cells⟩) buf = some ⟨tag, [] ++ cells ++ []⟩ := by
    rw [Function.update_self, List.nil_append, List.append_nil]
  rw [Slice.Shows.fill_eq rfl row rfl length, List.nil_append, List.append_nil, Function.update_idem]

end OwnBlock

/-! ## A memory of rows -/

/-- One block of single bytes for each row. -/
def rowsMem (rows : List (List α)) : SpanMem α where
  blocks addr := match addr with
    | 0 => none
    | k + 1 => rows[k]?.map fun row => ⟨(some 0, ⟨row.length, 1⟩), row.map some⟩
  answers _ := none
  asked := 0

/-- The span over a whole row. -/
def rowSpan (k len : Nat) : Span := ⟨⟨some (k + 1), 0, len⟩, ⟨1, 1⟩⟩

theorem rowsMem_holds {rows : List (List α)} {k : Nat} {row : List α} (at_ : rows[k]? = some row)
    (small : row.length < sizeRange) : Holds (rowsMem rows).blocks (rowSpan k row.length) row := by
  have here : (rowsMem rows).blocks (k + 1) = some ⟨(some 0, ⟨row.length, 1⟩), row.map some⟩ := by
    change (rows[k]?.map _) = _
    rw [at_]
    rfl
  have isType : (⟨1, 1⟩ : Layout).isType = true := by decide
  refine ⟨isType, ?_, List.length_map _, Or.inr ⟨k + 1, (some 0, ⟨row.length, 1⟩), [], [], rfl, ?_, rfl⟩⟩
  · change 1 * row.length < sizeRange
    rwa [Nat.one_mul]
  · rw [here, List.nil_append, List.append_nil]

theorem rowsMem_denies (rows : List (List α)) : ¬ (rowsMem rows).Grants := by
  rintro ⟨_, answer, _⟩
  cases answer

/-- The same rows, and an allocator that has more. -/
def lendingMem (rows : List (List α)) : SpanMem α :=
  { rowsMem rows with answers := fun request => some (rows.length + request + 1) }

theorem lendingMem_grants (rows : List (List α)) : (lendingMem rows).Grants := by
  refine ⟨rows.length + 1, rfl, ?_⟩
  change (rows[rows.length]?.map _) = none
  rw [List.getElem?_eq_none (Nat.le_refl _)]
  rfl

end Span
end TerseDsa
