import TerseDsa.Algo.Shuffle

namespace TerseDsa

open Foundation Run

/-!
# `algo/copy`

Copying a part of a span: a random sample of its elems.
-/

namespace Span

variable {α R : Type} {heap : SpanMem α} {dst src : Span} {cells : List (Option α)} {elems future : List α}
  {draws : List Nat} {want k : Nat} {elem : α}

/-- `tda_span_sample`. -/
def sample (α : Type) (idx : Nat -> Run R Nat) (dst src : Span) (rng : R) : Run (SpanMem α) (Nat × R) := do
  assertSpan dst
  assertSpan src
  require (dst.elem = src.elem)
  require (¬ Overlap dst src)
  let want := if dst.len < src.len then dst.len else src.len
  loop (fun (vars : Nat × Nat × R) => do
    let (read, write, rng) := vars
    if write < want then
      let (drawn, rng) ← demand (idx (wrapSub src.len read) rng)
      if drawn < want - write then
        let write ← emit α dst write src read
        return .again (read + 1, write, rng)
      else
        return .again (read + 1, write, rng)
    else
      return .leave (write, rng))
    (src.len + 1) (0, 0, rng)

/-! ## What is sampled -/

/-- The elems at the positions chosen. -/
def sampled (want : Nat) (draws : List Nat) (elems : List α) : List α :=
  (chosen want draws).filterMap fun position => elems[position]?

theorem filterMap_succ (positions : List Nat) :
    (positions.map Nat.succ).filterMap (fun position => (elem :: future)[position]?) =
      positions.filterMap fun position => future[position]? := by
  rw [List.filterMap_map]
  rfl

theorem sampled_hit (hit : k < want) :
    sampled want (k :: draws) (elem :: future) = elem :: sampled (want - 1) draws future := by
  rw [sampled, chosen, if_pos hit, List.filterMap_cons_some (show (elem :: future)[0]? = some elem from rfl),
    filterMap_succ]
  rfl

theorem sampled_miss (miss : ¬ k < want) : sampled want (k :: draws) (elem :: future) = sampled want draws future := by
  rw [sampled, chosen, if_neg miss, filterMap_succ]
  rfl

theorem sampled_zero : sampled 0 draws elems = [] := by
  induction draws generalizing elems with
  | nil => rfl
  | cons k draws ih =>
      cases elems with
      | nil =>
          rw [sampled, List.filterMap_eq_nil_iff]
          exact fun _ _ => rfl
      | cons elem future => rw [sampled_miss (Nat.not_lt_zero k), ih]

/-- Every position that is chosen has an elem. -/
theorem sampled_length (length : draws.length = elems.length) (enough : want ≤ elems.length)
    (free : Free elems.length draws) : (sampled want draws elems).length = want := by
  induction elems generalizing draws want with
  | nil =>
      rw [Nat.le_zero.mp enough, sampled_zero]
      rfl
  | cons elem future ih =>
      cases draws with
      | nil => cases length
      | cons k draws =>
          have size : draws.length = future.length := Nat.succ.inj length
          have below : k < future.length + 1 := free.1
          have rest : Free future.length draws := free.2
          rw [List.length_cons] at enough
          by_cases hit : k < want
          · rw [sampled_hit hit, List.length_cons, ih size (by omega) rest]
            omega
          · rw [sampled_miss hit, ih size (by omega) rest]

/-! ## Rules -/

theorem ends_sample (laid : Over heap.blocks dst cells) (holds : Holds heap.blocks src elems)
    (sameElem : dst.elem = src.elem) (apart : ¬ Overlap dst src)
    (drawn : draws ∈ drawVectors elems.length elems.length) {post : Nat × List Nat -> SpanMem α -> Prop}
    (done : forall (left : List Nat) (later : SpanMem α), left <:+ draws ->
      later.blocks = Slice.fill heap.blocks dst.toSlice
        (written (sampled (min cells.length elems.length) draws elems) cells) ->
      post (min cells.length elems.length, left) later) :
    Ends (sample α script dst src draws) heap post := by
  have lengthDst := laid.length
  have length := holds.length
  have away := apart_of_not_overlap apart
  have small : src.len < sizeRange := by
    have fits := holds.fits
    have isType := holds.isType
    simp only [Layout.isType, Bool.and_eq_true, decide_eq_true_eq] at isType
    exact Nat.lt_of_le_of_lt (Nat.le_mul_of_pos_left _ isType.1.2) fits
  have wanted : (if dst.len < src.len then dst.len else src.len) = min cells.length elems.length := by
    rw [lengthDst, length]
    split <;> omega
  simp only [sample, ends_bind, ends_assertSpan laid.asserts, ends_assertSpan (Over.asserts holds),
    ends_require, sameElem, apart, not_false_eq_true, true_and, wanted]
  -- what is still to be sampled from the elems not read yet, behind what is written
  refine ends_loop (fun rounds (vars : Nat × Nat × List Nat) mid => exists past future out,
    rounds = future.length ∧ elems = past ++ future ∧ vars.1 = past.length ∧ vars.2.1 = out.length ∧
      vars.2.2 <:+ draws ∧ vars.2.2.length = future.length ∧ Free future.length vars.2.2 ∧
      out.length ≤ min cells.length elems.length ∧
      min cells.length elems.length - out.length ≤ future.length ∧
      out ++ sampled (min cells.length elems.length - out.length) vars.2.2 future =
        sampled (min cells.length elems.length) draws elems ∧
      mid.blocks = Slice.fill heap.blocks dst.toSlice (written out cells)) ?_ (n := elems.length)
    ⟨[], elems, [], rfl, rfl, rfl, rfl, List.suffix_refl _, drawn.1, drawn.2, Nat.zero_le _,
      (by rw [List.length_nil]; omega), rfl, laid.slots.fill_same.symm⟩ (by omega)
  generalize goal : min cells.length elems.length = count at done ⊢
  have room : count ≤ cells.length := by omega
  rintro rounds ⟨read, write, left⟩ mid
    ⟨past, future, out, rfl, split, hereRead, hereWrite, suffix_, many, free, few, enough, final, same⟩
  dsimp only at hereRead hereWrite suffix_ many free final ⊢
  subst hereRead hereWrite
  rw [ends_ite]
  constructor
  · intro more
    cases future with
    | nil =>
        rw [List.length_nil] at enough
        omega
    | cons elem future =>
        cases left with
        | nil => cases many
        | cons k left =>
            have sizes := congrArg List.length split
            rw [List.length_append, List.length_cons] at sizes
            have unread : wrapSub src.len past.length = (elem :: future).length := by
              rw [wrapSub_eq small (by omega), List.length_cons]
              omega
            have shift : elems = (past ++ [elem]) ++ future := by
              rw [split, List.append_assoc]
              rfl
            have after : left <:+ draws := (List.suffix_cons k left).trans suffix_
            have fewer : left.length = future.length := Nat.succ.inj many
            have read : (past ++ [elem]).length = past.length + 1 := by
              rw [List.length_append, List.length_singleton]
            rw [ends_bind, unread, script_cons free.1, ends_demand_some, ends_ite]
            rw [List.length_cons] at enough
            constructor
            · intro hit
              have nowOver : Over mid.blocks dst (written out cells) := laid.asWritten same (by omega)
              have nowHolds : Holds mid.blocks src elems := laid.besideWritten holds same (by omega) away
              have inside : past.length < elems.length := by omega
              have found : elems[past.length] = elem := by
                simp only [split, List.getElem_append_right (Nat.le_refl _), Nat.sub_self, List.getElem_cons_zero]
              rw [ends_bind]
              apply ends_emitWritten nowOver nowHolds (by omega) inside away
              intro later put
              rw [same, laid.slots.fill_fill (length_written (by omega))
                (by rw [length_written (by rw [List.length_append, List.length_singleton]; omega)]), found] at put
              rw [ends_pure]
              refine ⟨future.length, Nat.lt_succ_self _, past ++ [elem], future, out ++ [elem], rfl, shift, read.symm, ?_,
                after, fewer, free.2, ?_, ?_, ?_, put⟩
              · rw [List.length_append, List.length_singleton]
              · rw [List.length_append, List.length_singleton]
                omega
              · rw [List.length_append, List.length_singleton]
                omega
              · rw [sampled_hit hit] at final
                rw [List.length_append, List.length_singleton, ← Nat.sub_sub, List.append_assoc]
                exact final
            · intro miss
              have still := free.1
              rw [List.length_cons] at still
              rw [ends_pure]
              refine ⟨future.length, Nat.lt_succ_self _, past ++ [elem], future, out, rfl, shift, read.symm, rfl, after,
                fewer, free.2, few, by omega, ?_, same⟩
              rwa [sampled_miss miss] at final
  · intro full
    have whole : out.length = count := by omega
    rw [ends_pure, whole]
    rw [whole, Nat.sub_self, sampled_zero, List.append_nil] at final
    rw [final] at same
    exact done left mid suffix_ same

/-! ## Every set of positions equally often -/

/-- Whatever the draws are, the sample is written to the front of `dst` and
nothing else; and as the draws are free, every set of positions is as likely
as any other of its size. -/
theorem Over.samples (laid : Over heap.blocks dst cells) (holds : Holds heap.blocks src elems)
    (sameElem : dst.elem = src.elem) (apart : ¬ Overlap dst src) :
    (forall draws, draws ∈ drawVectors elems.length elems.length ->
      (Ends (sample α script dst src draws) heap fun result later =>
        result.1 = min cells.length elems.length ∧ result.2 <:+ draws ∧
          later.blocks = Slice.fill heap.blocks dst.toSlice
            ((sampled (min cells.length elems.length) draws elems).map some ++
              cells.drop (min cells.length elems.length))) ∧
      (sampled (min cells.length elems.length) draws elems).length = min cells.length elems.length ∧
      (chosen (min cells.length elems.length) draws).Pairwise (· < ·) ∧
      forall position, position ∈ chosen (min cells.length elems.length) draws -> position < elems.length) ∧
    forall positions : Finset Nat, positions.card = min cells.length elems.length ->
      positions ⊆ Finset.range elems.length ->
      {draws | draws ∈ drawVectors elems.length elems.length ∧
          (chosen (min cells.length elems.length) draws).toFinset = positions}.ncard =
        (min cells.length elems.length).factorial * (elems.length - min cells.length elems.length).factorial := by
  refine ⟨fun draws drawn => ?_, fun positions size below => ncard_chosen_set size below⟩
  have size : (sampled (min cells.length elems.length) draws elems).length = min cells.length elems.length :=
    sampled_length drawn.1 (Nat.min_le_right _ _) drawn.2
  refine ⟨?_, size, chosen_sorted _ _, fun position inside => drawn.1 ▸ chosen_lt inside⟩
  apply ends_sample laid holds sameElem apart drawn
  intro left later suffix_ same
  rw [written, size] at same
  exact ⟨rfl, suffix_, same⟩

theorem Over.samples_row : (sampled 2 [2, 1, 0] [7, 8, 9]).length = 2 ∧
    {draws | draws ∈ drawVectors 3 3 ∧ (chosen 2 draws).toFinset = {0, 2}}.ncard = 2 := by
  have small : [7, 8, 9].length < sizeRange := by decide
  have few : [0, 0].length < sizeRange := by decide
  have holds : Holds (rowsMem [[7, 8, 9], [0, 0]]).blocks (rowSpan 0 3) [7, 8, 9] := rowsMem_holds rfl small
  have laid : Holds (rowsMem [[7, 8, 9], [0, 0]]).blocks (rowSpan 1 2) [0, 0] := rowsMem_holds rfl few
  have whole := Over.samples laid holds rfl (by decide)
  exact ⟨(whole.1 [2, 1, 0] ⟨rfl, by decide, by decide, by decide, trivial⟩).2.1, whole.2 {0, 2} rfl (by decide)⟩

end Span
end TerseDsa
