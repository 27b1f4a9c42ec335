import TerseDsa.Algo.Filter
import TerseDsa.Algo.Find
import TerseDsa.Foundation.Repeats

namespace TerseDsa

open Foundation Run

/-!
# `tda_span_unique`

Each elem is compared with the one kept last, in the slot behind which the next
one goes.  The pass is a compaction by a predicate that remembers that elem, so
the slot holds it although elems before it were written over.
-/

namespace Span

variable {α C : Type} {heap : SpanMem α} {s : Span} {elems row : List α} {eq : Equate α α C} {ctx : C}
  {same : α -> α -> Bool} {i : Nat}

/-- `tda_span_unique`. -/
def unique (s : Span) (eq : Equate α α C) (ctx : C) : Run (SpanMem α) (Nat × C) := do
  assertSpan s
  if s.len < 2 then
    return (s.len, ctx)
  countUp (fun read vars => do
    let cur ← get s read
    -- against the last elem kept, not the previous one read
    let last ← get s (wrapSub vars.1 1)
    let (same, ctx) := eq last cur vars.2
    if !same then
      let write ← emitOver α s vars.1 read
      return (write, ctx)
    return (vars.1, ctx)) (s.len - 1) 1 (1, ctx)

/-! ## The elem kept last -/

/-- The predicate that keeps an elem if it differs from the one kept last, which it remembers. -/
def remembering (eq : Equate α α C) : Pred α (Option α × C) := fun elem state =>
  match state.1 with
  | none => (true, (some elem, state.2))
  | some last =>
      if (eq last elem state.2).1 then
        (false, (some last, (eq last elem state.2).2))
      else
        (true, (some elem, (eq last elem state.2).2))

/-- What it remembers is what was kept last. -/
theorem remembers (elems : List α) :
    (sift (remembering eq) (none, ctx) elems).2.1 = (sift (remembering eq) (none, ctx) elems).1.getLast? := by
  induction elems using List.reverseRecOn with
  | nil => rfl
  | append_singleton front elem ih =>
      rw [sift_snoc]
      dsimp only
      cases known : (sift (remembering eq) (none, ctx) front).2.1 with
      | none =>
          simp only [remembering, known, if_true, List.getLast?_append, List.getLast?_singleton, Option.some_or]
      | some last =>
          rw [known] at ih
          cases answer : (eq last elem (sift (remembering eq) (none, ctx) front).2.2).1 with
          | true =>
              simp only [remembering, known, answer, if_true, Bool.false_eq_true, if_false, List.append_nil]
              exact ih
          | false =>
              simp only [remembering, known, answer, if_true, Bool.false_eq_true, if_false, List.getLast?_append,
                List.getLast?_singleton, Option.some_or]

/-- A callback without memory keeps each elem that differs from the one kept last. -/
theorem sift_remembering (answers : eq.Answers same) (elems : List α) :
    (sift (remembering eq) (none, ctx) elems).1 = distinct same elems := by
  have kept : forall (last : α) (rest : List α) (ctx : C),
      last :: (sift (remembering eq) (some last, ctx) rest).1 =
        rest.destutter' (fun x y => same x y = false) last := by
    intro last rest
    induction rest generalizing last with
    | nil => exact fun _ => rfl
    | cons x rest ih =>
        intro ctx
        simp only [sift, remembering, answers last x ctx]
        cases answer : same last x with
        | true =>
            rw [destutter'_equal answer, ← ih last]
            rfl
        | false =>
            rw [destutter'_differ answer, ← ih x]
            rfl
  cases elems with
  | nil => rfl
  | cons first rest => exact kept first rest ctx

/-- The slot before the next one to write holds the elem kept last. -/
theorem slot_last {vars : Nat × (Option α × C)} {last : α}
    (state : Compacting (remembering eq) (none, ctx) elems i vars row) (known : vars.2.1 = some last) :
    0 < vars.1 ∧ row[vars.1 - 1]? = some last := by
  rcases state.split with ⟨junk, split⟩
  have count := state.count
  rw [state.left, remembers] at known
  have some_ : 0 < vars.1 := by
    rw [count]
    apply List.length_pos_of_ne_nil
    intro empty
    rw [empty] at known
    cases known
  refine ⟨some_, ?_⟩
  rw [split, List.append_assoc, List.getElem?_append_left (by omega), count, ← List.getLast?_eq_getElem?]
  exact known

/-- The elems that differ from the one kept last are in front, in their order. -/
theorem ends_unique (holds : Holds heap.blocks s elems) {post : Nat × C -> SpanMem α -> Prop}
    (done : forall (junk : List α) (later : SpanMem α) (ctx' : C),
      ((sift (remembering eq) (none, ctx) elems).1 ++ junk).length = elems.length ->
      later.blocks = place heap.blocks s ((sift (remembering eq) (none, ctx) elems).1 ++ junk) ->
      post ((sift (remembering eq) (none, ctx) elems).1.length, ctx') later) :
    Ends (unique s eq ctx) heap post := by
  have len := holds.length
  have short := holds.length_lt
  simp only [unique, ends_bind, ends_assertSpan (Over.asserts holds)]
  by_cases few : s.len < 2
  · have all : (sift (remembering eq) (none, ctx) elems).1 = elems := by
      cases elems with
      | nil => rfl
      | cons first rest =>
          cases rest with
          | nil => rfl
          | cons second rest => exact absurd len (by simp only [List.length_cons]; omega)
    have final := done [] heap ctx
    rw [all, List.append_nil, holds.place_same, len] at final
    rw [if_pos few, ends_pure]
    exact final rfl rfl
  rw [if_neg few]
  apply ends_countUp (fun read vars later => exists row last, later.blocks = place heap.blocks s row ∧
      Compacting (remembering eq) (none, ctx) elems read (vars.1, (some last, vars.2)) row)
    (show 1 + (s.len - 1) = s.len by omega)
  · rintro read vars later _ below ⟨row, last, put, state⟩
    have inside : read < elems.length := by omega
    have now : Holds later.blocks s row := by
      rw [put]
      exact holds.placed state.length
    have slot := slot_last state rfl
    have before := state.count_le
    dsimp only at slot before
    have back : wrapSub vars.1 1 = vars.1 - 1 := wrapSub_eq (by omega) slot.1
    simp only [ends_bind, ends_get_of now (state.unread inside), back, ends_get_of now slot.2]
    cases answer : (eq last elems[read] vars.2).1 with
    | true =>
        have no : remembering eq elems[read] (some last, vars.2) = (false, (some last, (eq last elems[read] vars.2).2)) := by
          simp only [remembering, answer, if_true]
        have next := state.dropped inside (congrArg Prod.fst no)
        rw [no] at next
        simp only [Bool.not_true, Bool.false_eq_true, if_false, ends_pure]
        exact ⟨row, last, put, next⟩
    | false =>
        have yes : remembering eq elems[read] (some last, vars.2) =
            (true, (some elems[read], (eq last elems[read] vars.2).2)) := by
          simp only [remembering, answer, Bool.false_eq_true, if_false]
        have next := state.kept inside (congrArg Prod.fst yes)
        rw [yes] at next
        simp only [Bool.not_false, if_true, ends_bind]
        apply ends_emitOver now (state.unread inside) before
        intro final set_
        rw [put, holds.place_place state.length (by rw [List.length_set, state.length])] at set_
        exact (ends_pure _ _ _).mpr ⟨_, _, set_, next⟩
  · rintro ⟨write, left⟩ later ⟨row, last, put, state⟩
    have size := state.length
    rcases state.ended len.symm with ⟨same_, junk, split, _⟩
    subst split
    have count := congrArg Prod.fst same_
    dsimp only at count
    rw [count]
    exact done junk later left size put
  · cases elems with
    | nil => exact absurd len (by rw [List.length_nil]; omega)
    | cons first rest =>
        have start : Compacting (remembering eq) (none, ctx) (first :: rest) 0 (0, (none, ctx)) (first :: rest) :=
          Compacting.start
        exact ⟨first :: rest, first, holds.place_same.symm, start.kept (Nat.zero_lt_succ _) rfl⟩

/-! ## The result -/

/-- The pass leaves the row that is built by keeping the first elem and then each that differs
from the one kept last. It has no two equal elems next to each other; for an
equivalence it has the first elem of every maximal run; of a span that is sorted it has one
elem of every class; and a second pass changes nothing. -/
theorem uniques (holds : Holds heap.blocks s elems) (answers : eq.Answers same) (ctx : C) :
    Ends (unique s eq ctx) heap fun result later => exists junk,
      result.1 = (distinct same elems).length ∧ (distinct same elems ++ junk).length = elems.length ∧
      later.blocks = place heap.blocks s (distinct same elems ++ junk) ∧
      distinct same elems = (elems.destutter fun x y => same x y = false) ∧
      (distinct same elems).IsChain (fun x y => same x y = false) ∧
      (Equivalence (fun x y => same x y = true) -> distinct same elems = (elems.splitBy same).filterMap List.head?) ∧
      (forall (cmp : Cmp α C) (order : α -> α -> Int), cmp.Orders order -> (forall x y, same x y = decide (order x y = 0)) ->
        elems.Pairwise (Cmp.le order) ->
        (distinct same elems).Pairwise (fun x y => same x y = false) ∧
          forall x, x ∈ elems -> exists y, y ∈ distinct same elems ∧ same y x = true) ∧
      (forall ctx, Ends (unique (s.part 0 result.1) eq ctx) later fun again last =>
        again.1 = result.1 ∧ last.blocks = later.blocks) := by
  apply ends_unique holds
  intro junk later left size put
  rw [sift_remembering answers] at size put
  rw [sift_remembering answers]
  have chain : (distinct same elems).IsChain fun x y => same x y = false := List.isChain_destutter _ _
  refine ⟨junk, rfl, size, put, rfl, chain, distinct_eq_heads, ?_, ?_⟩
  · intro cmp order orders ties sorted
    have sign : SignOrder order := ⟨orders.antisymm, fun le also => orders.trans le also⟩
    have refl : forall x, same x x = true := fun x => (ties x x).trans (decide_eq_true (sign.self_eq_zero x))
    exact ⟨pairwise_distinct sign ties sorted, fun x member => exists_mem_distinct refl member⟩
  · intro ctx
    have shown : Holds later.blocks s ([] ++ distinct same elems ++ junk) := by
      rw [put, List.nil_append]
      exact holds.placed size
    have front := shown.part
    have still : distinct same (distinct same elems) = distinct same elems := List.destutter_of_isChain _ _ chain
    apply ends_unique front
    intro nothing last _ sizeAgain putAgain
    rw [sift_remembering answers, still] at sizeAgain putAgain
    rw [sift_remembering answers, still]
    have none_ : nothing = [] := by
      rw [List.length_append] at sizeAgain
      exact List.eq_nil_of_length_eq_zero (by omega)
    rw [none_, List.append_nil] at putAgain
    exact ⟨rfl, putAgain.trans front.place_same⟩

theorem uniques_row :
    Ends (unique (rowSpan 0 5) sameNumber ()) (rowsMem [[7, 7, 8, 7, 7]]) fun result _ => result.1 = 3 := by
  have row : Holds (rowsMem [[7, 7, 8, 7, 7]]).blocks (rowSpan 0 5) [7, 7, 8, 7, 7] :=
    rowsMem_holds rfl (show [7, 7, 8, 7, 7].length < sizeRange by decide)
  have answers : sameNumber.Answers fun lhs rhs => decide (lhs = rhs) := fun _ _ _ => rfl
  refine (uniques row answers ()).mono ?_
  rintro result later ⟨junk, length, _⟩
  exact length

end Span
end TerseDsa
