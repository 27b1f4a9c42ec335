import TerseDsa.Algo.Transform

namespace TerseDsa

open Foundation Run

/-!
# `algo/fill`

One value is written over every elem.  The value is read once, so it may be any
bytes, those of an elem too; then the elems that have it are copied behind
themselves, twice as many every time.
-/

namespace ByteSpan

variable {S : Type} {span : ByteSpan} {bytes mid : Bytes} {val done : Nat} {s : S}

/-- `tda_byte_offset_mut`. -/
def byteOffset (base stride n : Nat) : Run S Nat := do
  require (base ≠ 0 ∨ n = 0)
  require (0 < stride)
  return wrapAdd base (wrapMul stride n)

/-- `memcpy`, which takes only regions that share no byte. -/
def memcpy (dst src count : Nat) : Run Bytes Unit := do
  require (Region.Apart ⟨dst, count⟩ ⟨src, count⟩)
  modify fun bytes => bytes.copy dst src count

/-- `memmove`, which reads all of the bytes before it writes one. -/
def memmove (dst src count : Nat) : Run Bytes Unit := modify fun bytes => bytes.copy dst src count

/-- `tda_span_set`. -/
def set (span : ByteSpan) (idx val : Nat) : Run Bytes Unit := do
  assertSpan span
  require (val ≠ 0)
  require (idx < span.len)
  let target ← get span idx
  memmove target val span.elem.size

/-- The body of the loop in `tda_span_fill`. -/
def fillRound (span : ByteSpan) (done : Nat) : Run Bytes (Run.Round Nat Nat) := do
  if done < span.len then
    let n := if done < wrapSub span.len done then done else wrapSub span.len done
    let target ← byteOffset span.data span.elem.size done
    memcpy target span.data (wrapMul n span.elem.size)
    return .again (wrapAdd done n)
  else
    return .leave done

/-- The loop in `tda_span_fill`, with what `done` is behind it. -/
def fillRest (span : ByteSpan) : Run Bytes Nat := loop (fillRound span) span.len 1

/-- `tda_span_fill`. -/
def fill (span : ByteSpan) (val : Nat) : Run Bytes Unit := do
  assertSpan span
  require (val ≠ 0)
  if span.len = 0 then
    return ()
  set span 0 val
  let _ ← fillRest span
  return ()

/-- The plain loop: a value that is held elsewhere is written to one elem after the other. -/
def writeEach (span : ByteSpan) (held : Elem span.elem.size) : Run Bytes Unit :=
  countUp (fun i _ => do
    let target ← get span i
    modify fun bytes => bytes.putElem target held) span.len 0 ()

/-! ## Rounds -/

/-- The elems in front have the value, and there is one of them. -/
structure Filling (span : ByteSpan) (held : Elem span.elem.size) (bytes : Bytes) (done : Nat) (mid : Bytes) : Prop where
  some_ : 0 < done
  within : done ≤ span.len
  rewritten : span.row.Rewritten (fun _ => held) done bytes mid

/-- So many elems are copied in a round. -/
def copied (span : ByteSpan) (done : Nat) : Nat := min done (span.len - done)

theorem Valid.len_lt (valid : span.Valid) : span.len < sizeRange := by
  have more := Nat.le_mul_of_pos_right span.len valid.wide
  have fits := valid.fits
  omega

/-- The copy of a round lies inside the span, behind what it is copied from. -/
theorem copied_apart (more : done < span.len) :
    Region.Apart ⟨span.row.addrOf done, span.copied done * span.elem.size⟩
        ⟨span.data, span.copied done * span.elem.size⟩ ∧
      Region.Within ⟨span.row.addrOf done, span.copied done * span.elem.size⟩ span.row.region ∧
      Region.Within ⟨span.data, span.copied done * span.elem.size⟩ span.row.region := by
  have few : span.copied done ≤ done := Nat.min_le_left _ _
  have room : done + span.copied done ≤ span.len := by
    have rest : span.copied done ≤ span.len - done := Nat.min_le_right _ _
    omega
  have front : span.copied done * span.elem.size ≤ done * span.elem.size := Nat.mul_le_mul_right _ few
  have whole : (done + span.copied done) * span.elem.size ≤ span.len * span.elem.size := Nat.mul_le_mul_right _ room
  rw [Nat.add_mul] at whole
  refine ⟨Or.inr ?_, ⟨Nat.le_add_right _ _, ?_⟩, Nat.le_refl _, ?_⟩
  · exact Nat.add_le_add_left front span.data
  · simp only [Region.stop, Row.region, Row.front, Row.addrOf, row]
    omega
  · simp only [Region.stop, Row.region, Row.front, row]
    omega

theorem ends_set {idx : Nat} (valid : span.Valid) (real : val ≠ 0) (inside : idx < span.len)
    {post : Unit -> Bytes -> Prop}
    (ended : post () (bytes.putElem (span.row.addrOf idx) (bytes.elemAt val span.elem.size))) :
    Ends (set span idx val) bytes post := by
  simp only [set, memmove, ends_bind, ends_assertSpan valid, ends_require, real, ne_eq, not_false_eq_true,
    inside, true_and, ends_get valid inside, ends_modify, Bytes.copy_eq_putElem]
  exact ended

/-- A round doubles what is filled, or fills up the span. -/
theorem ends_fillRound {held : Elem span.elem.size} (valid : span.Valid) (filling : span.Filling held bytes done mid)
    {post : Run.Round Nat Nat -> Bytes -> Prop}
    (again : forall next later, span.Filling held bytes next later -> done < next -> post (.again next) later)
    (leave : done = span.len -> post (.leave done) mid) :
    Ends (fillRound span done) mid post := by
  rcases filling with ⟨some_, within, rewritten⟩
  have fits := valid.fits
  have small := valid.len_lt
  rw [fillRound, ends_ite]
  constructor
  · intro more
    have few : span.copied done ≤ done := Nat.min_le_left _ _
    have rest : span.copied done ≤ span.len - done := Nat.min_le_right _ _
    have n_eq : (if done < wrapSub span.len done then done else wrapSub span.len done) = span.copied done := by
      rw [wrapSub_eq small within, copied]
      split <;> omega
    have before : done * span.elem.size ≤ span.len * span.elem.size := Nat.mul_le_mul_right _ within
    have part : span.copied done * span.elem.size ≤ done * span.elem.size := Nat.mul_le_mul_right _ few
    have real : span.data ≠ 0 := by
      rcases valid.asserts.1 with there | empty
      · exact there
      · omega
    have target : wrapAdd span.data (wrapMul span.elem.size done) = span.row.addrOf done := by
      rw [wrapMul, Nat.mul_comm, ← wrapMul, wrapMul_eq (by omega), wrapAdd_eq (by omega)]
      rfl
    simp only [n_eq, byteOffset, memcpy, ends_bind, ends_require, ends_pure, ends_modify]
    rw [target, wrapMul_eq (by omega), wrapAdd_eq (by omega)]
    refine ⟨Or.inl real, valid.wide, (copied_apart more).1, ?_⟩
    refine again _ _ ⟨by omega, by omega, rewritten.copied few⟩ ?_
    unfold copied
    omega
  · intro all
    rw [ends_pure]
    exact leave (by omega)

/-- The first elem has the value after it was set. -/
theorem filling_first (some_ : 0 < span.len) :
    span.Filling (bytes.elemAt val span.elem.size) bytes 1
      (bytes.putElem (span.row.addrOf 0) (bytes.elemAt val span.elem.size)) :=
  ⟨Nat.one_pos, some_, (Row.Rewritten.none_ span.row (fun _ => bytes.elemAt val span.elem.size) bytes).put⟩

/-- The loop leaves off with all of the span filled. -/
theorem ends_fillRest {held : Elem span.elem.size} (valid : span.Valid) (filling : span.Filling held bytes 1 mid) :
    Ends (fillRest span) mid fun done later => done = span.len ∧ span.Filling held bytes span.len later := by
  refine ends_loop (fun rounds done mid => span.Filling held bytes done mid ∧ rounds = span.len - done) ?_
    (n := span.len - 1) ⟨filling, rfl⟩ (Nat.sub_lt filling.within Nat.one_pos)
  rintro rounds done mid ⟨filling, rfl⟩
  apply ends_fillRound valid filling
  · intro next later filled further
    have within := filled.within
    exact ⟨span.len - next, by omega, filled, rfl⟩
  · intro all
    exact ⟨all, all ▸ filling⟩

/-! ## The whole span -/

theorem ends_writeEach (valid : span.Valid) (held : Elem span.elem.size) :
    Ends (writeEach span held) bytes fun _ later => span.row.Rewritten (fun _ => held) span.len bytes later := by
  refine ends_countUp (fun i _ later => span.row.Rewritten (fun _ => held) i bytes later) (Nat.zero_add _) ?_
    (fun _ _ all => all) (Row.Rewritten.none_ _ _ _)
  intro i _ later _ inside rewritten
  simp only [ends_bind, ends_get valid inside, ends_modify]
  exact rewritten.put

/-- Whatever bytes the value has, and wherever they are, filling leaves them in every elem and nothing else
changed, as writing them to one elem after the other does.  Every copy is from one part of the span to
another, and the loop leaves off with as many elems done as there are. -/
theorem Valid.fills (valid : span.Valid) (real : val ≠ 0) (bytes : Bytes) :
    (Ends (fill span val) bytes fun _ later =>
      (forall i, i < span.len -> span.row.elem later i = bytes.elemAt val span.elem.size) ∧
        Bytes.Keeps bytes later span.row.region ∧
        Ends (writeEach span (bytes.elemAt val span.elem.size)) bytes fun _ plain => plain = later) ∧
    (0 < span.len ->
      (Ends (do
        set span 0 val
        fillRest span) bytes fun done _ => done = span.len) ∧
      forall first : Bytes, Ends (set span 0 val) bytes (fun _ mid => mid = first) ->
        forall done mid, Visits (fillRound span) 1 first done mid -> done ≤ span.len ∧
          (done < span.len -> 0 < span.copied done ∧
            Region.Apart ⟨span.row.addrOf done, span.copied done * span.elem.size⟩
              ⟨span.data, span.copied done * span.elem.size⟩ ∧
            Region.Within ⟨span.row.addrOf done, span.copied done * span.elem.size⟩ span.row.region ∧
            Region.Within ⟨span.data, span.copied done * span.elem.size⟩ span.row.region)) := by
  have plain : forall {later : Bytes},
      span.row.Rewritten (fun _ => bytes.elemAt val span.elem.size) span.len bytes later ->
      Ends (writeEach span (bytes.elemAt val span.elem.size)) bytes fun _ plain => plain = later :=
    fun filled => (ends_writeEach valid _).mono fun _ _ written => written.unique filled
  refine ⟨?_, fun some_ => ⟨?_, fun first sets done mid visits => ?_⟩⟩
  · simp only [fill, ends_bind, ends_assertSpan valid, ends_require, real, ne_eq, not_false_eq_true, true_and]
    by_cases empty : span.len = 0
    · rw [if_pos empty, ends_pure]
      have none_ := Row.Rewritten.none_ span.row (fun _ => bytes.elemAt val span.elem.size) bytes
      rw [← empty] at none_
      exact ⟨none_.elems, none_.keeps, plain none_⟩
    · have some_ := Nat.pos_of_ne_zero empty
      rw [if_neg empty, ends_bind]
      apply ends_set valid real some_
      rw [ends_bind]
      refine (ends_fillRest valid (filling_first some_)).mono fun _ later filled => ?_
      rw [ends_pure]
      exact ⟨filled.2.rewritten.elems, filled.2.rewritten.keeps, plain filled.2.rewritten⟩
  · rw [ends_bind]
    apply ends_set valid real some_
    exact (ends_fillRest valid (filling_first some_)).mono fun _ _ filled => filled.1
  · have start : span.Filling (bytes.elemAt val span.elem.size) bytes 1 first := by
      have put : Ends (set span 0 val) bytes fun _ mid =>
          span.Filling (bytes.elemAt val span.elem.size) bytes 1 mid :=
        ends_set valid real some_ (filling_first some_)
      rcases put.and sets with ⟨_, _, _, filling, rfl⟩
      exact filling
    have filling : span.Filling (bytes.elemAt val span.elem.size) bytes done mid := by
      refine visits.keeps (fun done mid => span.Filling (bytes.elemAt val span.elem.size) bytes done mid) ?_ start
      intro done mid filling
      refine Ends.allows (ends_fillRound valid filling ?_ ?_)
      · exact fun next later filled _ => filled
      · exact fun _ => trivial
    refine ⟨filling.within, fun more => ⟨?_, copied_apart more⟩⟩
    have some_ := filling.some_
    unfold copied
    omega

/-- Seven elems of two bytes are filled with the fourth of them. -/
theorem Valid.fills_with_own : Ends (fill ⟨16, 7, ⟨2, 2⟩⟩ 22) (fun addr => BitVec.ofNat 8 addr) fun _ later =>
    forall i, i < 7 -> Row.elem ⟨16, 2, 7⟩ later i = Bytes.elemAt (fun addr => BitVec.ofNat 8 addr) 22 2 := by
  have valid : (⟨16, 7, ⟨2, 2⟩⟩ : ByteSpan).Valid := ⟨by decide, by decide⟩
  exact (valid.fills (show 22 ≠ 0 by decide) fun addr => BitVec.ofNat 8 addr).1.mono fun _ _ filled => filled.1

end ByteSpan
end TerseDsa
