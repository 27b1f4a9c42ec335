import TerseDsa.Deque.Shifting

namespace TerseDsa

open Foundation Run

/-!
# Whole contents

Elems that are set in place, and the length and the capacity.
-/

namespace Deque

variable {α S : Type} {heap : DequeMem α} {self after : Deque} {view : List (Option α)}
  {elems rest src : List α} {idx count newLen : Nat} {val : α}

/-! ## Elems in place -/

theorem ends_overwrite (holds : Holds heap.blocks self elems) (inside : idx < self.len)
    {post : Unit -> DequeMem α -> Prop}
    (done : forall later : DequeMem α,
      Tends heap.blocks later.blocks self self (elems.set idx val) -> post () later) :
    Ends (setElemAt self idx (some val)) heap post := by
  rcases holds.shows with ⟨view, ring, shows_⟩
  have load := holds.load
  have length := ring.length
  have elemsLen := holds.len
  apply ends_setElemAt ring (by omega)
  intro later turns
  apply done
  apply Tends.of_shows turns
  · rw [List.length_set]
    exact elemsLen
  · exact load
  · intro place within
    rw [List.length_set] at within
    rw [List.getElem?_set, List.getElem?_set]
    by_cases here : idx = place
    · rw [if_pos here, if_pos here, if_pos (by omega), if_pos (by omega)]
      rfl
    · rw [if_neg here, if_neg here]
      exact shows_ place (by omega)

/-- A slot of the block that holds an elem. -/
theorem ends_readSlot_names {slot : Nat} (holds : Holds heap.blocks self elems)
    (names : Names self elems val (.slot slot)) {post : Option α -> DequeMem α -> Prop} :
    Ends (readSlot self.data slot) heap post <-> post (some val) heap := by
  rcases holds.shows with ⟨view, ring, shows_⟩
  rcases names with ⟨inBlock, found⟩
  have within := (List.getElem?_eq_some_iff.mp found).1
  have load := holds.load
  have elemsLen := holds.len
  have bound := ring.cap_lt
  rcases ring.room (by omega) with ⟨addr, slots, data, here, rotated, length, start⟩
  have shown := shows_ (idxOf self slot) (by omega)
  rw [found, rotated, getElem?_rotate_lap (by omega) (by omega), length,
    lap_idxOf bound start inBlock] at shown
  exact ends_readSlot data here shown

theorem ends_set {operand_ : Operand α} (holds : Holds heap.blocks self elems)
    (names : Names self elems val operand_) (inside : idx < self.len)
    {post : Unit -> DequeMem α -> Prop}
    (done : forall later : DequeMem α,
      Tends heap.blocks later.blocks self self (elems.set idx val) -> post () later) :
    Ends (set self idx operand_) heap post := by
  simp only [set, ends_bind, ends_assertDeque holds.asserts, ends_require, inside, true_and]
  cases operand_ with
  | outside given =>
      have same : given = val := names
      subst same
      exact ends_overwrite holds inside done
  | slot slot =>
      simp only [ends_bind, ends_readSlot_names holds names]
      exact ends_overwrite holds inside done

/-- Two elems in each other's place. -/
def swapped (elems : List α) (i j : Nat) : List α :=
  match elems[i]?, elems[j]? with
  | some a, some b => (elems.set i b).set j a
  | _, _ => elems

theorem ends_swapElems {i j : Nat} (holds : Holds heap.blocks self elems) (first : i < self.len)
    (second : j < self.len) {post : Unit -> DequeMem α -> Prop}
    (done : forall later : DequeMem α,
      Tends heap.blocks later.blocks self self (swapped elems i j) -> post () later) :
    Ends (swapElems α self i j) heap post := by
  have elemsLen := holds.len
  have foundI : elems[i]? = some elems[i] := List.getElem?_eq_getElem (by omega)
  have foundJ : elems[j]? = some elems[j] := List.getElem?_eq_getElem (by omega)
  simp only [swapped, foundI, foundJ] at done
  simp only [swapElems, ends_bind, ends_assertDeque holds.asserts, ends_require, first,
    second, true_and]
  by_cases same : i = j
  · rw [if_pos same, ends_pure]
    apply done
    subst same
    rw [List.set_set, List.set_getElem_self]
    exact Tends.refl holds
  · simp only [if_neg same, ends_bind, ends_elem holds foundI, ends_elem holds foundJ]
    apply ends_overwrite holds first
    intro mid put
    apply ends_overwrite put.holds second
    intro later putBack
    exact done later (put.trans putBack)

/-! ## Length and capacity -/

theorem ends_truncate (holds : Holds heap.blocks self elems) {post : Deque -> DequeMem α -> Prop}
    (done : forall after : Deque,
      Tends heap.blocks heap.blocks self after (elems.take newLen) -> post after heap) :
    Ends (truncate self newLen) heap post := by
  have elemsLen := holds.len
  simp only [truncate, ends_bind, ends_assertDeque holds.asserts]
  by_cases fewer : newLen < self.len
  · have tends := holds.fewer (Nat.le_of_lt fewer)
    simp only [if_pos fewer, ends_assertDeque tends.holds.asserts, ends_pure]
    exact done _ tends
  · simp only [if_neg fewer, ends_assertDeque holds.asserts, ends_pure]
    apply done
    rw [List.take_of_length_le (by omega)]
    exact Tends.refl holds

/-- With the head back at slot 0 the ring is read from another place. -/
theorem Ring.rewound (ring : Ring heap.blocks self view) :
    exists next, Turns heap.blocks heap.blocks self { self with head := 0 } next := by
  rcases ring.start with ⟨_, atZero⟩ | inside
  · have same : { self with head := 0 } = self := by
      rw [← atZero]
    rw [same]
    exact ⟨view, Turns.refl ring⟩
  · have turned := ring.fwd (Nat.zero_lt_of_lt inside) (self.cap - self.head)
    rw [Nat.add_sub_cancel' (Nat.le_of_lt inside), Nat.mod_self] at turned
    exact ⟨_, turned⟩

theorem ends_clear (holds : Holds heap.blocks self elems) {post : Deque -> DequeMem α -> Prop}
    (done : forall after : Deque, Tends heap.blocks heap.blocks self after ([] : List α) ->
      post after heap) :
    Ends (clear self) heap post := by
  rcases holds.ring with ⟨view, ring, _⟩
  rcases ring.rewound with ⟨next, turned⟩
  have cleared : Tends heap.blocks heap.blocks self { self with len := 0, head := 0 }
      ([] : List α) := Tends.of_turns (turned.withLen 0) (List.take_zero) (Nat.zero_le _)
  simp only [clear, ends_bind, ends_assertDeque holds.asserts,
    ends_assertDeque cleared.holds.asserts, ends_pure]
  exact done _ cleared

theorem ends_shrinkToFit (holds : Holds heap.blocks self elems)
    {post : Status × Deque -> DequeMem α -> Prop}
    (refused : heap.Spared (post (.errNoMem, self)))
    (done : forall (after : Deque) (later : DequeMem α),
      Tends heap.blocks later.blocks self after elems -> post (.ok, after) later) :
    Ends (shrinkToFit α self) heap post := by
  have elemsLen := holds.len
  have load := holds.load
  rcases holds.ring with ⟨view, ring, _⟩
  simp only [shrinkToFit, ends_bind, ends_assertDeque holds.asserts]
  by_cases tight : self.len = self.cap
  · rw [if_pos tight, ends_pure]
    exact done self heap (Tends.refl holds)
  · rw [if_neg tight]
    by_cases none_ : self.len = 0
    · simp only [if_pos none_, releaseData, ends_bind]
      apply ends_freeBlock ring
      intro later gone
      have empty : elems = [] := List.length_eq_zero_iff.mp (by omega)
      have released : Tends heap.blocks later.blocks self
          { self with data := none, len := 0, cap := 0, head := 0 } elems := by
        rw [empty]
        exact ⟨Holds.of_bare ring.real ring.elem rfl rfl rfl rfl, gone, rfl, rfl⟩
      simp only [ends_pure, ends_assertDeque released.holds.asserts]
      exact done _ later released
    · rw [if_neg none_]
      apply ends_relocate holds (Nat.le_refl _) (Nat.pos_of_ne_zero none_) _ refused
      · exact fun after later tends _ _ => done after later tends
      · exact Nat.lt_of_le_of_lt (Nat.mul_le_mul_left _ load) ring.fits

/-- The places behind the elems are written one by one. -/
theorem ends_fillBack (holds : Holds heap.blocks self elems) (more : self.len ≤ newLen)
    (room : newLen ≤ self.cap) {post : Unit -> DequeMem α -> Prop}
    (done : forall later : DequeMem α,
      Tends heap.blocks later.blocks self { self with len := newLen }
        (elems ++ List.replicate (newLen - self.len) val) -> post () later) :
    Ends (countUp (fun i _ => setElemAt self i (some val)) (newLen - self.len) self.len ())
      heap post := by
  have elemsLen := holds.len
  rcases holds.shows with ⟨view, ring, shows_⟩
  apply ends_countUp (fun i _ later => exists next,
    Turns heap.blocks later.blocks self self next ∧
      forall place, place < i ->
        next[place]? = (elems ++ List.replicate (newLen - self.len) val)[place]?.map some)
    (show self.len + (newLen - self.len) = newLen by omega)
  · intro i _ mid low below state
    rcases state with ⟨next, turns, written⟩
    have length := turns.ring.length
    apply ends_setElemAt turns.ring (by omega)
    intro later more
    apply Exists.intro
    apply And.intro (turns.trans more)
    intro place within
    rw [List.getElem?_set]
    by_cases here : i = place
    · rw [if_pos here, if_pos (by omega), List.getElem?_append, if_neg (by omega),
        List.getElem?_replicate, if_pos (by omega)]
      rfl
    · rw [if_neg here]
      exact written place (by omega)
  · intro _ later state
    rcases state with ⟨next, turns, written⟩
    have total : (elems ++ List.replicate (newLen - self.len) val).length = newLen := by
      rw [List.length_append, List.length_replicate]
      omega
    apply done
    apply Tends.of_shows (turns.withLen newLen) total.symm room
    intro place within
    exact written place (by omega)
  · apply Exists.intro view
    apply And.intro (Turns.refl ring)
    intro place within
    rw [List.getElem?_append_left (by omega)]
    exact shows_ place within

/-- The elems cut to a length, or filled up to it at the back. -/
def resized (fill : α) (elems : List α) (newLen : Nat) : List α :=
  elems.take newLen ++ List.replicate (newLen - elems.length) fill

theorem ends_resize {zero : α} (holds : Holds heap.blocks self elems)
    {post : Status × Deque -> DequeMem α -> Prop}
    (refused : heap.Spared (post (.errNoMem, self)))
    (done : forall (after : Deque) (later : DequeMem α),
      Tends heap.blocks later.blocks self after (resized zero elems newLen) ->
      post (.ok, after) later) :
    Ends (resize zero self newLen) heap post := by
  have elemsLen := holds.len
  simp only [resize, ends_bind, ends_assertDeque holds.asserts]
  by_cases fewer : newLen ≤ self.len
  · have tends := holds.fewer fewer
    simp only [if_pos fewer, ends_bind, ends_assertDeque tends.holds.asserts, ends_pure]
    apply done
    rw [resized, Nat.sub_eq_zero_of_le (by omega), List.replicate_zero, List.append_nil]
    exact tends
  · simp only [if_neg fewer]
    have fill : forall (grown : Deque) (mid : DequeMem α),
        Tends heap.blocks mid.blocks self grown elems -> newLen ≤ grown.cap ->
        grown.len = self.len ->
        Ends (countUp (fun i _ => setElemAt grown i (some zero)) (newLen - grown.len)
          grown.len ()) mid (fun _ later =>
            Tends heap.blocks later.blocks self { grown with len := newLen }
              (resized zero elems newLen)) := by
      intro grown mid tends room len
      apply ends_fillBack tends.holds (by omega) room
      intro later filled
      rw [len, elemsLen] at filled
      rw [resized, List.take_of_length_le (by omega)]
      exact tends.trans filled
    by_cases grow : newLen > self.cap
    · simp only [if_pos grow, ends_bind]
      apply ends_reserveFor holds grow
      · intro later same
        simp only [if_refused, ends_pure]
        exact refused later same
      · intro grown mid tends room len
        simp only [if_granted, ends_bind]
        apply (fill grown mid tends room len).mono
        intro _ later filled
        simp only [ends_assertDeque filled.holds.asserts, ends_pure]
        exact done _ later filled
    · simp only [if_neg grow, ends_bind, ends_pure, if_granted]
      apply (fill self heap (Tends.refl holds) (Nat.le_of_not_lt grow) rfl).mono
      intro _ later filled
      simp only [ends_assertDeque filled.holds.asserts]
      exact done _ later filled

end Deque
end TerseDsa
