import TerseDsa.Core.Layout
import TerseDsa.Core.Spans
import TerseDsa.Foundation.Strides

namespace TerseDsa

open Foundation Run

/-!
# The mappings of `algo/transform`

The elems of the source and those of the destination may differ in width, so
spans are rows of bytes here and an elem is read and written byte by byte.
-/

/-- `tda_Span` and `tda_SpanMut` over bytes; the null pointer is the address zero. -/
structure ByteSpan where
  data : Nat
  len : Nat
  elem : Layout

/-- `tda_UnOp`, which reads its operand before it writes, with the state behind its `ctx`. -/
abbrev ByteUnOp (operand result : Nat) (C : Type) := Elem operand -> C -> Elem result × C

/-- `tda_BinOp`, which reads both operands before it writes, with the state behind its `ctx`. -/
abbrev ByteBinOp (lhs rhs result : Nat) (C : Type) := Elem lhs -> Elem rhs -> C -> Elem result × C

namespace ByteSpan

variable {C S : Type} {dst src a b span : ByteSpan} {s : S} {bytes later : Bytes} {idx elsewhere : Nat}

/-- `TDA_SPAN_ASSERT`. -/
def Asserts (span : ByteSpan) : Prop :=
  (span.data ≠ 0 ∨ span.len = 0) ∧ span.elem.isType = true ∧ alignMeets span.data span.elem.align = true

instance (span : ByteSpan) : Decidable span.Asserts := by
  unfold Asserts
  infer_instance

def assertSpan (span : ByteSpan) : Run S Unit := require span.Asserts

/-- `tda_span_bytes`. -/
def sizeBytes (span : ByteSpan) : Run S Nat := do
  assertSpan span
  return wrapMul span.len span.elem.size

/-- `tda_span_overlap`. -/
def overlap (a b : ByteSpan) : Run S Bool := do
  assertSpan a
  assertSpan b
  if a.len = 0 ∨ b.len = 0 then
    return false
  let bytesB ← sizeBytes b
  let bytesA ← sizeBytes a
  return decide (a.data < wrapAdd b.data bytesB ∧ b.data < wrapAdd a.data bytesA)

/-- `tda_span_may_write_over`. -/
def mayWriteOver (dst src : ByteSpan) : Run S Bool := do
  let shared ← overlap dst src
  if shared = false then
    return true
  return decide (dst.data = src.data ∧ dst.elem.size ≤ src.elem.size)

/-- What `tda_span_get` and `tda_span_get_mut` point at. -/
def get (span : ByteSpan) (idx : Nat) : Run S Nat := do
  assertSpan span
  require (idx < span.len)
  return wrapAdd span.data (wrapMul idx span.elem.size)

/-- A call of a `tda_UnOp`. -/
def callUn {operand result : Nat} (op : ByteUnOp operand result C) (dst src : Nat) (ctx : C) : Run Bytes C :=
  modifyGet fun bytes =>
    let (val, ctx) := op (bytes.elemAt src operand) ctx
    (ctx, bytes.putElem dst val)

/-- A call of a `tda_BinOp`. -/
def callBin {lhs rhs result : Nat} (op : ByteBinOp lhs rhs result C) (dst a b : Nat) (ctx : C) : Run Bytes C :=
  modifyGet fun bytes =>
    let (val, ctx) := op (bytes.elemAt a lhs) (bytes.elemAt b rhs) ctx
    (ctx, bytes.putElem dst val)

/-- `tda_span_transform`. -/
def transform (dst src : ByteSpan) (op : ByteUnOp src.elem.size dst.elem.size C) (ctx : C) : Run Bytes C := do
  assertSpan dst
  assertSpan src
  require (dst.len = src.len)
  let allowed ← mayWriteOver dst src
  require (allowed = true)
  countUp (fun i ctx => do
    let target ← get dst i
    let operand ← get src i
    callUn op target operand ctx) src.len 0 ctx

/-- `tda_span_zip_with`. -/
def zipWith (dst a b : ByteSpan) (op : ByteBinOp a.elem.size b.elem.size dst.elem.size C) (ctx : C) : Run Bytes C := do
  assertSpan dst
  assertSpan a
  assertSpan b
  require (dst.len = a.len)
  require (a.len = b.len)
  let allowedA ← mayWriteOver dst a
  require (allowedA = true)
  let allowedB ← mayWriteOver dst b
  require (allowedB = true)
  countUp (fun i ctx => do
    let target ← get dst i
    let lhs ← get a i
    let rhs ← get b i
    callBin op target lhs rhs ctx) a.len 0 ctx

/-! ## Placements -/

/-- The span as a row of bytes. -/
def row (span : ByteSpan) : Row := ⟨span.data, span.elem.size, span.len⟩

/-- The span keeps what every view holds, and the address behind it is one. -/
structure Valid (span : ByteSpan) : Prop where
  asserts : span.Asserts
  fits : span.data + span.len * span.elem.size < sizeRange

theorem Valid.wide (valid : span.Valid) : 0 < span.elem.size := Layout.size_pos valid.asserts.2.1

theorem ends_assertSpan (valid : span.Valid) {post : Unit -> S -> Prop} :
    Ends (assertSpan span) s post <-> post () s := by
  simp only [assertSpan, ends_require, valid.asserts, true_and]

theorem ends_sizeBytes (valid : span.Valid) {post : Nat -> S -> Prop} :
    Ends (sizeBytes span) s post <-> post (span.len * span.elem.size) s := by
  have fits := valid.fits
  rw [sizeBytes, ends_bind, ends_assertSpan valid, ends_pure, wrapMul_eq (by omega)]

theorem ends_overlap (validA : a.Valid) (validB : b.Valid) {post : Bool -> S -> Prop}
    (done : forall shared, (shared = false <-> a.row.Disjoint b.row) -> post shared s) :
    Ends (overlap a b) s post := by
  simp only [overlap, ends_bind, ends_assertSpan validA, ends_assertSpan validB]
  by_cases nothing : a.len = 0 ∨ b.len = 0
  · rw [if_pos nothing, ends_pure]
    exact done false ⟨fun _ => Row.disjoint_of_empty nothing, fun _ => rfl⟩
  · rw [not_or] at nothing
    simp only [if_neg (not_or.mpr nothing), ends_bind, ends_sizeBytes validA, ends_sizeBytes validB, ends_pure,
      wrapAdd_eq validA.fits, wrapAdd_eq validB.fits]
    apply done
    rw [decide_eq_false_iff_not, Row.disjoint_iff nothing ⟨validA.wide, validB.wide⟩]
    simp only [Region.Apart, Region.stop, Row.region, Row.front, row]
    omega

/-- The destination may stand where the source is not read any more. -/
theorem ends_mayWriteOver (validDst : dst.Valid) (validSrc : src.Valid) {post : Bool -> S -> Prop}
    (done : forall allowed, (allowed = true <-> dst.row.Follows src.row) -> post allowed s) :
    Ends (mayWriteOver dst src) s post := by
  rw [mayWriteOver, ends_bind]
  apply ends_overlap validDst validSrc
  intro shared tells
  cases shared with
  | false =>
      rw [if_pos rfl, ends_pure]
      exact done true ⟨fun _ => Or.inl (tells.mp rfl), fun _ => rfl⟩
  | true =>
      rw [if_neg Bool.noConfusion, ends_pure]
      apply done
      rw [decide_eq_true_eq]
      constructor
      · exact Or.inr
      · rintro (disjoint | same)
        · exact absurd (tells.mpr disjoint) Bool.noConfusion
        · exact same

theorem ends_get (valid : span.Valid) (inside : idx < span.len) {post : Nat -> S -> Prop} :
    Ends (get span idx) s post <-> post (span.row.addrOf idx) s := by
  have fits := valid.fits
  have less : idx * span.elem.size ≤ span.len * span.elem.size := Nat.mul_le_mul_right _ (Nat.le_of_lt inside)
  simp only [get, ends_bind, ends_assertSpan valid, ends_require, inside, true_and, ends_pure]
  rw [wrapMul_eq (by omega), wrapAdd_eq (by omega)]
  rfl

theorem ends_callUn {operand result target from_ : Nat} {op : ByteUnOp operand result C} {ctx : C}
    {post : C -> Bytes -> Prop} :
    Ends (callUn op target from_ ctx) bytes post <->
      post (op (bytes.elemAt from_ operand) ctx).2 (bytes.putElem target (op (bytes.elemAt from_ operand) ctx).1) :=
  ends_pure (S := Bytes) _ _ _

theorem ends_callBin {lhs rhs result target fromA fromB : Nat} {op : ByteBinOp lhs rhs result C} {ctx : C}
    {post : C -> Bytes -> Prop} :
    Ends (callBin op target fromA fromB ctx) bytes post <->
      post (op (bytes.elemAt fromA lhs) (bytes.elemAt fromB rhs) ctx).2
        (bytes.putElem target (op (bytes.elemAt fromA lhs) (bytes.elemAt fromB rhs) ctx).1) :=
  ends_pure (S := Bytes) _ _ _

/-! ## The mappings -/

/-- What `tda_span_transform` and `tda_span_zip_with` ask of the destination and a source. -/
structure Takes (dst src : ByteSpan) : Prop where
  dstValid : dst.Valid
  srcValid : src.Valid
  len : dst.len = src.len
  follows : dst.row.Follows src.row

theorem Takes.within (takes : dst.Takes src) {i : Nat} (inside : i < dst.len) : i < src.len := by
  rwa [← takes.len]

theorem ends_transform (takes : dst.Takes src) (op : ByteUnOp src.elem.size dst.elem.size C) (ctx : C) :
    Ends (transform dst src op ctx) bytes fun last later =>
      last = Row.stateAt op (src.row.elem bytes) ctx dst.len ∧
        dst.row.Rewritten (Row.resultAt op (src.row.elem bytes) ctx) dst.len bytes later := by
  simp only [transform, ends_bind, ends_assertSpan takes.dstValid, ends_assertSpan takes.srcValid, ends_require,
    takes.len, true_and]
  apply ends_mayWriteOver takes.dstValid takes.srcValid
  intro allowed tells
  refine ⟨tells.mpr takes.follows, ?_⟩
  rw [← takes.len]
  have unread : forall i later, i < dst.row.len -> Bytes.Keeps bytes later (dst.row.front i) ->
      src.row.elem later i = src.row.elem bytes i :=
    fun _ _ inside keeps => takes.follows.unread takes.len (takes.within inside) keeps
  apply Row.ends_rewriting unread
  · intro i ctx later post inside ended
    simp only [ends_bind, ends_get takes.dstValid inside, ends_get takes.srcValid (takes.within inside), ends_callUn]
    exact ended

/-- Both operands of an elem. -/
def operands (a b : ByteSpan) (bytes : Bytes) (i : Nat) : Elem a.elem.size × Elem b.elem.size :=
  (a.row.elem bytes i, b.row.elem bytes i)

theorem ends_zipWith (takesA : dst.Takes a) (takesB : dst.Takes b)
    (op : ByteBinOp a.elem.size b.elem.size dst.elem.size C) (ctx : C) :
    Ends (zipWith dst a b op ctx) bytes fun last later =>
      last = Row.stateAt (fun both ctx => op both.1 both.2 ctx) (operands a b bytes) ctx dst.len ∧
        dst.row.Rewritten (Row.resultAt (fun both ctx => op both.1 both.2 ctx) (operands a b bytes) ctx) dst.len
          bytes later := by
  simp only [zipWith, ends_bind, ends_assertSpan takesA.dstValid, ends_assertSpan takesA.srcValid,
    ends_assertSpan takesB.srcValid, ends_require, ← takesA.len, ← takesB.len, true_and]
  apply ends_mayWriteOver takesA.dstValid takesA.srcValid
  intro allowedA tellsA
  refine ⟨tellsA.mpr takesA.follows, ?_⟩
  apply ends_mayWriteOver takesA.dstValid takesB.srcValid
  intro allowedB tellsB
  refine ⟨tellsB.mpr takesB.follows, ?_⟩
  have unread : forall i later, i < dst.row.len -> Bytes.Keeps bytes later (dst.row.front i) ->
      operands a b later i = operands a b bytes i := by
    intro i later inside keeps
    rw [operands, takesA.follows.unread takesA.len (takesA.within inside) keeps,
      takesB.follows.unread takesB.len (takesB.within inside) keeps]
    rfl
  apply Row.ends_rewriting unread
  · intro i ctx later post inside ended
    simp only [ends_bind, ends_get takesA.dstValid inside, ends_get takesA.srcValid (takesA.within inside),
      ends_get takesB.srcValid (takesB.within inside), ends_callBin]
    exact ended

/-- The span elsewhere. -/
def moved (span : ByteSpan) (elsewhere : Nat) : ByteSpan := { span with data := elsewhere }

theorem Takes.moved (takes : dst.Takes src) (valid : (dst.moved elsewhere).Valid)
    (disjoint : (dst.moved elsewhere).row.Disjoint src.row) : (dst.moved elsewhere).Takes src :=
  ⟨valid, takes.srcValid, takes.len, Or.inl disjoint⟩

/-- After one mapping into `dst` and one to elsewhere the same bytes are in both, and nothing else was written. -/
structure Agree (dst : ByteSpan) (elsewhere : Nat) (bytes later other : Bytes) : Prop where
  same : forall offset, offset < dst.len * dst.elem.size -> later (dst.data + offset) = other (elsewhere + offset)
  keeps : Bytes.Keeps bytes later dst.row.region
  keepsElsewhere : Bytes.Keeps bytes other (dst.moved elsewhere).row.region

theorem agree_of_rewritten {results : Nat -> Elem dst.elem.size} {other : Bytes}
    (rewritten : dst.row.Rewritten results dst.len bytes later)
    (also : (dst.moved elsewhere).row.Rewritten results dst.len bytes other) : dst.Agree elsewhere bytes later other :=
  ⟨fun _ inside => rewritten.same_bytes also inside, rewritten.keeps, also.keeps⟩

/-- A mapping over its own source gives the same bytes as one apart from it, and the check of the
placement lets nothing else overlap. -/
theorem mappings :
    (forall (dst src : ByteSpan) (elsewhere : Nat) (op : ByteUnOp src.elem.size dst.elem.size C) (ctx : C) (bytes : Bytes),
      dst.Takes src -> (dst.moved elsewhere).Valid -> (dst.moved elsewhere).row.Disjoint src.row ->
      Ends (transform dst src op ctx) bytes fun last later =>
        Ends (transform (dst.moved elsewhere) src op ctx) bytes fun lastElsewhere other =>
          last = lastElsewhere ∧ dst.Agree elsewhere bytes later other) ∧
    (forall (dst a b : ByteSpan) (elsewhere : Nat) (op : ByteBinOp a.elem.size b.elem.size dst.elem.size C) (ctx : C)
        (bytes : Bytes), dst.Takes a -> dst.Takes b -> (dst.moved elsewhere).Valid ->
      (dst.moved elsewhere).row.Disjoint a.row -> (dst.moved elsewhere).row.Disjoint b.row ->
      Ends (zipWith dst a b op ctx) bytes fun last later =>
        Ends (zipWith (dst.moved elsewhere) a b op ctx) bytes fun lastElsewhere other =>
          last = lastElsewhere ∧ dst.Agree elsewhere bytes later other) ∧
    (forall (dst src : ByteSpan) (bytes : Bytes), dst.Valid -> src.Valid ->
      Ends (mayWriteOver dst src) bytes fun allowed later => later = bytes ∧
        (allowed = true <-> dst.len = 0 ∨ src.len = 0 ∨ dst.row.Disjoint src.row ∨
          (dst.data = src.data ∧ dst.elem.size ≤ src.elem.size))) := by
  refine ⟨?_, ?_, ?_⟩
  · intro dst src elsewhere op ctx bytes takes valid disjoint
    refine (ends_transform takes op ctx).mono ?_
    rintro last later ⟨state, rewritten⟩
    refine (ends_transform (takes.moved valid disjoint) op ctx).mono ?_
    rintro lastElsewhere other ⟨stateElsewhere, also⟩
    exact ⟨state.trans stateElsewhere.symm, agree_of_rewritten rewritten also⟩
  · intro dst a b elsewhere op ctx bytes takesA takesB valid disjointA disjointB
    refine (ends_zipWith takesA takesB op ctx).mono ?_
    rintro last later ⟨state, rewritten⟩
    refine (ends_zipWith (takesA.moved valid disjointA) (takesB.moved valid disjointB) op ctx).mono ?_
    rintro lastElsewhere other ⟨stateElsewhere, also⟩
    exact ⟨state.trans stateElsewhere.symm, agree_of_rewritten rewritten also⟩
  · intro dst src bytes validDst validSrc
    apply ends_mayWriteOver validDst validSrc
    intro allowed tells
    refine ⟨rfl, tells.trans ?_⟩
    constructor
    · rintro (disjoint | same)
      · exact Or.inr (Or.inr (Or.inl disjoint))
      · exact Or.inr (Or.inr (Or.inr same))
    · rintro (nothing | nothing | disjoint | same)
      · exact Or.inl (Row.disjoint_of_empty (Or.inl nothing))
      · exact Or.inl (Row.disjoint_of_empty (Or.inr nothing))
      · exact Or.inl disjoint
      · exact Or.inr same

/-- Adds up the two bytes of a wide elem. -/
def addBytes : ByteUnOp 2 1 Unit := fun operand ctx => (fun _ => operand 0 + operand 1, ctx)

theorem mappings_halved :
    Ends (transform ⟨8, 3, ⟨1, 1⟩⟩ ⟨8, 3, ⟨2, 2⟩⟩ addBytes ()) (BitVec.ofNat 8) fun last later =>
      Ends (transform ⟨64, 3, ⟨1, 1⟩⟩ ⟨8, 3, ⟨2, 2⟩⟩ addBytes ()) (BitVec.ofNat 8) fun lastElsewhere other =>
        last = lastElsewhere ∧ Agree ⟨8, 3, ⟨1, 1⟩⟩ 64 (BitVec.ofNat 8) later other := by
  have takes : Takes ⟨8, 3, ⟨1, 1⟩⟩ ⟨8, 3, ⟨2, 2⟩⟩ :=
    ⟨⟨by decide, by decide⟩, ⟨by decide, by decide⟩, rfl, Or.inr ⟨rfl, by decide⟩⟩
  have disjoint : Row.Disjoint ⟨64, 1, 3⟩ ⟨8, 2, 3⟩ :=
    (Row.disjoint_iff ⟨by decide, by decide⟩ ⟨by decide, by decide⟩).mpr (by decide)
  exact mappings.1 ⟨8, 3, ⟨1, 1⟩⟩ ⟨8, 3, ⟨2, 2⟩⟩ 64 addBytes () _ takes ⟨by decide, by decide⟩ disjoint

end ByteSpan
end TerseDsa
