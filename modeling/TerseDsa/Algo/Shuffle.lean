import TerseDsa.Algo.Permute
import TerseDsa.Core.Uniform
import TerseDsa.Foundation.Draws

namespace TerseDsa

open Foundation Run

/-!
# `algo/permute`: shuffling

Both shuffles walk over a span and swap a drawn elem into the position that is
settled next.  The draws come from `idx`, which is `tda_rng_idx` of a generator
or, to let every draw be free, a script.
-/

/-- Draws that are given beforehand. -/
def script (len : Nat) : Run (List Nat) Nat := do
  match ← get with
  | [] => failure
  | k :: draws =>
      require (k < len)
      set draws
      return k

namespace Span

variable {α R : Type} {heap : SpanMem α} {span : Span} {elems front settled rest : List α} {draws : List Nat}
  {k count len : Nat} {x : α}

/-- `tda_span_shuffle`. -/
def shuffle (α : Type) (idx : Nat -> Run R Nat) (span : Span) (rng : R) : Run (SpanMem α) R := do
  assertSpan span
  loop (fun (vars : Nat × R) => do
    let (i, rng) := vars
    if i > 1 then
      let (drawn, rng) ← demand (idx i rng)
      swapElems α span (i - 1) drawn
      return .again (i - 1, rng)
    else
      return .leave rng)
    (span.len + 1) (span.len, rng)

/-- `tda_span_shuffle_prefix`. -/
def shufflePrefix (α : Type) (idx : Nat -> Run R Nat) (span : Span) (count : Nat) (rng : R) : Run (SpanMem α) R := do
  assertSpan span
  require (count ≤ span.len)
  countUp (fun i rng => do
    let (drawn, rng) ← demand (idx (span.len - i) rng)
    swapElems α span i (i + drawn)
    return rng)
    count 0 rng

/-! ## Taking an elem out -/

/-- The drawn elem goes to the end, and the last one takes its place. -/
def pickLast (elems : List α) (k : Nat) : Option (α × List α) :=
  (exchanged elems (elems.length - 1) k).getLast?.map fun x => (x, (exchanged elems (elems.length - 1) k).dropLast)

/-- The drawn elem goes to the front, and the first one takes its place. -/
def pickFirst (elems : List α) (k : Nat) : Option (α × List α) :=
  (exchanged elems 0 k).head?.map fun x => (x, (exchanged elems 0 k).tail)

theorem pickLast_eq (picked : pickLast elems k = some (x, rest)) :
    exchanged elems (elems.length - 1) k = rest ++ [x] := by
  unfold pickLast at picked
  rcases Option.map_eq_some_iff.mp picked with ⟨last, found, same⟩
  cases same
  rcases List.getLast?_eq_some_iff.mp found with ⟨init, split⟩
  rw [split, List.dropLast_concat]

theorem pickFirst_eq (picked : pickFirst elems k = some (x, rest)) : exchanged elems 0 k = x :: rest := by
  unfold pickFirst at picked
  rcases Option.map_eq_some_iff.mp picked with ⟨first, found, same⟩
  cases same
  rcases List.head?_eq_some_iff.mp found with ⟨tail, split⟩
  rw [split, List.tail_cons]

theorem picks_pickLast : Picks (pickLast (α := α)) := by
  intro elems k inside
  have length : (exchanged elems (elems.length - 1) k).length = elems.length := length_exchanged _ _
  cases found : (exchanged elems (elems.length - 1) k).getLast? with
  | none =>
      rw [List.getLast?_eq_none_iff] at found
      rw [found, List.length_nil] at length
      omega
  | some x =>
      have picked : pickLast elems k = some (x, (exchanged elems (elems.length - 1) k).dropLast) := by
        rw [pickLast, found]
        rfl
      have split := pickLast_eq picked
      refine ⟨x, _, picked, ?_, ?_⟩
      · have last := getElem?_exchanged (show elems.length - 1 < elems.length by omega) inside (elems.length - 1)
        rw [List.getLast?_eq_getElem?, length, last] at found
        by_cases same : elems.length - 1 = k
        · rw [if_pos same] at found
          rwa [same] at found
        · rwa [if_neg same, if_pos rfl] at found
      · have perm : (exchanged elems (elems.length - 1) k).Perm elems := exchanged_perm _ _
        rw [split] at perm
        exact (List.perm_append_singleton x _).symm.trans perm

theorem picks_pickFirst : Picks (pickFirst (α := α)) := by
  intro elems k inside
  have length : (exchanged elems 0 k).length = elems.length := length_exchanged _ _
  cases found : (exchanged elems 0 k).head? with
  | none =>
      rw [List.head?_eq_none_iff] at found
      rw [found, List.length_nil] at length
      omega
  | some x =>
      have picked : pickFirst elems k = some (x, (exchanged elems 0 k).tail) := by
        rw [pickFirst, found]
        rfl
      have split := pickFirst_eq picked
      refine ⟨x, _, picked, ?_, ?_⟩
      · have first := getElem?_exchanged (show 0 < elems.length by omega) inside 0
        rw [List.head?_eq_getElem?, first] at found
        by_cases same : 0 = k
        · rwa [if_pos same, same] at found
        · rwa [if_neg same, if_pos rfl] at found
      · have perm : (exchanged elems 0 k).Perm elems := exchanged_perm _ _
        rwa [split] at perm

/-! ## Whole walks -/

/-- The elems after the walk that settles them from the end. -/
def shuffled (elems : List α) (draws : List Nat) : List α :=
  match select pickLast draws elems with
  | some (sel, left) => left ++ sel.reverse
  | none => elems

/-- The elems after the walk that settles them from the front. -/
def shuffledPrefix (elems : List α) (draws : List Nat) : List α :=
  match select pickFirst draws elems with
  | some (sel, left) => sel ++ left
  | none => elems

theorem shuffled_cons (free : Free front.length (k :: draws)) (picked : pickLast front k = some (x, rest)) :
    Free rest.length draws ∧ rest.length + 1 = front.length ∧ shuffled front (k :: draws) = shuffled rest draws ++ [x] := by
  have length := congrArg List.length (pickLast_eq picked)
  rw [length_exchanged, List.length_append, List.length_singleton] at length
  have fewer : front.length - 1 = rest.length := by omega
  have freeRest := fewer ▸ free.2
  rcases exists_select picks_pickLast freeRest with ⟨sel, left, selected, _, _⟩
  refine ⟨freeRest, length.symm, ?_⟩
  rw [shuffled, select_cons picked selected, shuffled, selected]
  simp only [List.reverse_cons, List.append_assoc]

theorem shuffledPrefix_cons (free : Free front.length (k :: draws)) (picked : pickFirst front k = some (x, rest)) :
    Free rest.length draws ∧ rest.length + 1 = front.length ∧
      shuffledPrefix front (k :: draws) = x :: shuffledPrefix rest draws := by
  have length := congrArg List.length (pickFirst_eq picked)
  rw [length_exchanged, List.length_cons] at length
  have fewer : front.length - 1 = rest.length := by omega
  have freeRest := fewer ▸ free.2
  rcases exists_select picks_pickFirst freeRest with ⟨sel, left, selected, _, _⟩
  refine ⟨freeRest, length.symm, ?_⟩
  rw [shuffledPrefix, select_cons picked selected, shuffledPrefix, selected]
  rfl

theorem shuffled_perm (free : Free elems.length draws) : (shuffled elems draws).Perm elems := by
  rcases exists_select picks_pickLast free with ⟨sel, left, selected, _, perm⟩
  rw [shuffled, selected]
  exact (List.perm_append_comm.trans ((List.reverse_perm sel).append_right left)).trans perm

theorem shuffledPrefix_perm (free : Free elems.length draws) : (shuffledPrefix elems draws).Perm elems := by
  rcases exists_select picks_pickFirst free with ⟨sel, left, selected, _, perm⟩
  rw [shuffledPrefix, selected]
  exact perm

/-! ## Rules -/

theorem script_cons (below : k < len) : script len (k :: draws) = some (k, draws) := by
  change (do require (k < len); set draws; return k : Run (List Nat) Nat) (k :: draws) = _
  rw [require, if_pos below]
  rfl

theorem ends_shuffle (holds : Holds heap.blocks span elems) (drawn : draws ∈ drawVectors elems.length (elems.length - 1))
    {post : List Nat -> SpanMem α -> Prop}
    (done : forall later : SpanMem α, later.blocks = place heap.blocks span (shuffled elems draws) -> post [] later) :
    Ends (shuffle α script span draws) heap post := by
  have length := holds.length
  simp only [shuffle, ends_bind, ends_assertSpan (Over.asserts holds)]
  -- what the walk will have made of the elems not settled yet, in front of those settled
  refine ends_loop (fun rounds (vars : Nat × List Nat) mid => exists front settled,
    rounds = front.length ∧ vars.1 = front.length ∧ front.length + settled.length = elems.length ∧
      vars.2.length = front.length - 1 ∧ Free front.length vars.2 ∧
        shuffled front vars.2 ++ settled = shuffled elems draws ∧ mid.blocks = place heap.blocks span (front ++ settled))
    ?_ (n := elems.length)
    ⟨elems, [], rfl, length.symm, rfl, drawn.1, drawn.2, List.append_nil _, by rw [List.append_nil, holds.place_same]⟩
    (by omega)
  rintro rounds ⟨i, left⟩ mid ⟨front, settled, rfl, here, sizes, many, free, final, same⟩
  dsimp only at here many free final ⊢
  subst here
  have lengths : (front ++ settled).length = elems.length := by rw [List.length_append, sizes]
  rw [ends_ite]
  constructor
  · intro more
    cases left with
    | nil =>
        rw [List.length_nil] at many
        omega
    | cons k left =>
        have below : k < front.length := free.1
        have now : Holds mid.blocks span (front ++ settled) := by
          rw [same]
          exact holds.placed lengths
        rcases picks_pickLast front k below with ⟨x, rest, picked, _, _⟩
        rcases shuffled_cons free picked with ⟨freeRest, fewer, shuffles⟩
        rw [ends_bind, script_cons below, ends_demand_some, ends_bind]
        apply ends_swapElems now (by rw [lengths]; omega) (by rw [lengths]; omega)
        intro later swapped
        rw [exchanged_append_right (by omega) below, pickLast_eq picked, same,
          holds.place_place lengths (by simp only [List.length_append, List.length_singleton]; omega)] at swapped
        rw [ends_pure]
        refine ⟨rest.length, by omega, rest, [x] ++ settled, rfl, by dsimp only; omega, ?_, ?_, freeRest, ?_, ?_⟩
        · rw [List.length_append, List.length_singleton]
          omega
        · rw [List.length_cons] at many
          dsimp only
          omega
        · rw [shuffles, List.append_assoc] at final
          exact final
        · rw [swapped, List.append_assoc]
  · intro beyond
    rw [ends_pure]
    have none_ : left = [] := List.eq_nil_of_length_eq_zero (by omega)
    subst none_
    apply done
    have stays : shuffled front [] = front := List.append_nil front
    rw [same, ← final, stays]

theorem ends_shufflePrefix (holds : Holds heap.blocks span elems) (few : count ≤ elems.length)
    (drawn : draws ∈ drawVectors elems.length count) {post : List Nat -> SpanMem α -> Prop}
    (done : forall later : SpanMem α, later.blocks = place heap.blocks span (shuffledPrefix elems draws) ->
      post [] later) :
    Ends (shufflePrefix α script span count draws) heap post := by
  have length := holds.length
  simp only [shufflePrefix, ends_bind, ends_assertSpan (Over.asserts holds), ends_require, ← length, few, true_and]
  refine ends_countUp (fun i (left : List Nat) mid => exists settled front,
    settled.length = i ∧ settled.length + front.length = elems.length ∧ i + left.length = count ∧
      Free front.length left ∧ settled ++ shuffledPrefix front left = shuffledPrefix elems draws ∧
        mid.blocks = place heap.blocks span (settled ++ front))
    (Nat.zero_add count) ?_ ?_
    ⟨[], elems, rfl, Nat.zero_add _, (Nat.zero_add _).trans drawn.1, drawn.2, rfl, holds.place_same.symm⟩
  · rintro i left mid _ more ⟨settled, front, rfl, sizes, many, free, final, same⟩
    cases left with
    | nil =>
        rw [List.length_nil] at many
        omega
    | cons k left =>
        have lengths : (settled ++ front).length = elems.length := by rw [List.length_append, sizes]
        have below : k < front.length := free.1
        have now : Holds mid.blocks span (settled ++ front) := by
          rw [same]
          exact holds.placed lengths
        have unsettled : elems.length - settled.length = front.length := by omega
        rcases picks_pickFirst front k below with ⟨x, rest, picked, _, _⟩
        rcases shuffledPrefix_cons free picked with ⟨freeRest, fewer, shuffles⟩
        rw [ends_bind, unsettled, script_cons below, ends_demand_some, ends_bind]
        apply ends_swapElems now (by rw [lengths]; omega) (by rw [lengths]; omega)
        intro later swapped
        have exchange : exchanged (settled ++ front) (settled.length + 0) (settled.length + k) =
            settled ++ exchanged front 0 k := exchanged_append_left (by omega) below
        rw [Nat.add_zero, pickFirst_eq picked] at exchange
        rw [exchange, same, holds.place_place lengths
          (by simp only [List.length_append, List.length_cons]; omega)] at swapped
        rw [ends_pure]
        refine ⟨settled ++ [x], rest, ?_, ?_, ?_, freeRest, ?_, ?_⟩
        · rw [List.length_append, List.length_singleton]
        · rw [List.length_append, List.length_singleton]
          omega
        · rw [List.length_cons] at many
          dsimp only
          omega
        · rw [shuffles] at final
          rw [List.append_assoc]
          exact final
        · rw [swapped, List.append_assoc]
          rfl
  · rintro left mid ⟨settled, front, rfl, sizes, many, free, final, same⟩
    have none_ : left = [] := List.eq_nil_of_length_eq_zero (by omega)
    subst none_
    apply done
    rw [same, ← final]
    rfl

/-! ## Every order once -/

/-- The elems that end up in the first positions are those drawn. -/
theorem take_shuffledPrefix {sel left : List α} (length : draws.length = count)
    (selected : select pickFirst draws elems = some (sel, left)) : (shuffledPrefix elems draws).take count = sel := by
  rw [shuffledPrefix, selected]
  dsimp only
  rw [← length, ← length_of_select selected, List.take_left]

/-- Every draw vector leaves the elems in some order, and of distinct elems each
order in exactly one way; and so for the elems in the first positions. -/
theorem Holds.shuffles (holds : Holds heap.blocks span elems) :
    (forall draws, draws ∈ drawVectors elems.length (elems.length - 1) ->
      (shuffled elems draws).Perm elems ∧
        Ends (shuffle α script span draws) heap fun rest later =>
          rest = [] ∧ later.blocks = place heap.blocks span (shuffled elems draws)) ∧
    (forall count, count ≤ elems.length -> forall draws, draws ∈ drawVectors elems.length count ->
      (shuffledPrefix elems draws).Perm elems ∧
        Ends (shufflePrefix α script span count draws) heap fun rest later =>
          rest = [] ∧ later.blocks = place heap.blocks span (shuffledPrefix elems draws)) ∧
    (elems.Nodup ->
      Set.BijOn (shuffled elems) (drawVectors elems.length (elems.length - 1)) {out | out.Perm elems} ∧
      {out : List α | out.Perm elems}.ncard = elems.length.factorial ∧
      forall count, count ≤ elems.length ->
        Set.BijOn (fun draws => (shuffledPrefix elems draws).take count) (drawVectors elems.length count)
          {sel | sel.length = count ∧ sel.Nodup ∧ sel ⊆ elems}) := by
  refine ⟨fun draws drawn => ⟨shuffled_perm drawn.2, ?_⟩, fun count few draws drawn =>
    ⟨shuffledPrefix_perm drawn.2, ?_⟩, fun nodup => ⟨?_, ncard_arrangements nodup, fun count few => ?_⟩⟩
  · exact ends_shuffle holds drawn fun later same => ⟨rfl, same⟩
  · exact ends_shufflePrefix holds few drawn fun later same => ⟨rfl, same⟩
  · apply bijOn_arrange picks_pickLast nodup
    intro draws sel left selected
    rw [shuffled, selected]
  · exact bijOn_select picks_pickFirst nodup fun draws sel left => take_shuffledPrefix

theorem Holds.shuffles_row : (shuffled [7, 8, 9] [0, 1]).Perm [7, 8, 9] ∧
    Set.BijOn (shuffled [7, 8, 9]) (drawVectors 3 2) {out | out.Perm [7, 8, 9]} := by
  have small : [7, 8, 9].length < sizeRange := by decide
  have holds : Holds (rowsMem [[7, 8, 9]]).blocks (rowSpan 0 3) [7, 8, 9] := rowsMem_holds rfl small
  have whole := holds.shuffles
  exact ⟨(whole.1 [0, 1] ⟨rfl, by decide, by decide, trivial⟩).1, (whole.2.2 (by decide)).1⟩

end Span
end TerseDsa
