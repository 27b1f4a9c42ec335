import TerseDsa.Deque.Editing

namespace TerseDsa

open Foundation Run

/-!
# Inserting, removing and retaining

`open_gap` and `remove_range` shift whichever side of the deque is shorter.
Both ways come to one view: the elems before the place stay, those behind it
are found further back, or further to the front.
-/

namespace Deque

variable {α C S : Type} {heap : DequeMem α} {self after : Deque} {view : List (Option α)}
  {elems rest src : List α} {idx count newLen : Nat} {val : α}

/-- First the elems of the deque change, then its ring turns. -/
theorem Tends.turns {blocks later last : Blocks AlTag (List (Option α))} {mid : Deque}
    (tends : Tends blocks later self mid rest) (turns : Turns later last mid after view) :
    Turns blocks last self after view :=
  ⟨turns.ring, tends.evolves.trans turns.evolves, turns.elem.trans tends.elem,
    turns.al.trans tends.al⟩

/-! ## Gaps -/

/-- `count` places before the elem at `idx` are open. -/
structure Gap (view : List (Option α)) (elems : List α) (idx count : Nat) : Prop where
  before : forall place, place < idx -> view[place]? = elems[place]?.map some
  behind : forall place, idx ≤ place -> place < elems.length ->
    view[count + place]? = elems[place]?.map some

/-- On a deque that has the room, the gap is opened from either side. -/
theorem ends_shift {grown : Deque} (holds : Holds heap.blocks grown elems) (inside : idx ≤ grown.len)
    (some_ : 0 < count) (room : grown.len + count ≤ grown.cap) (total : newLen = grown.len + count)
    {post : Status × Deque -> DequeMem α -> Prop}
    (done : forall (after : Deque) (later : DequeMem α) (view : List (Option α)),
      Turns heap.blocks later.blocks grown after view -> after.len = newLen ->
      after.len ≤ after.cap -> Gap view elems idx count -> post (.ok, after) later) :
    Ends (do
      if idx < grown.len - idx then
        let head ← slotBack grown grown.head count
        moveElems α { grown with head, len := newLen } 0 count idx
        return (Status.ok, { grown with head, len := newLen })
      else
        moveElems α { grown with len := newLen } (idx + count) idx (grown.len - idx)
        return (Status.ok, { grown with len := newLen })) heap post := by
  subst total
  rcases holds.shows with ⟨view, ring, shows_⟩
  have length := ring.length
  have elemsLen := holds.len
  have roomy : 0 < grown.cap := by omega
  rcases ring.room roomy with ⟨_, _, _, _, _, _, start⟩
  by_cases front : idx < grown.len - idx
  · rw [if_pos front, ends_bind, ends_slotBack ring.cap_lt start (by omega)]
    have turned := (ring.fwd roomy (grown.cap - count)).withLen (grown.len + count)
    simp only [ends_bind]
    apply ends_moveElems turned.ring
    · change 0 + idx ≤ grown.cap
      omega
    · change count + idx ≤ grown.cap
      omega
    · exact Or.inr (Nat.ne_of_lt some_)
    · intro later turns
      simp only [ends_pure]
      apply done _ later _ (turned.trans turns) rfl room
      have rotated : (view.rotate (grown.cap - count)).length = grown.cap := by
        rw [List.length_rotate, length]
      constructor
      · intro place before
        rw [getElem?_shifted (by omega) (by omega), if_pos (by omega),
          getElem?_turn (by omega) (by omega), if_neg (by omega), ← shows_ place (by omega)]
        congr 1
        omega
      · intro place behind within
        rw [getElem?_shifted (by omega) (by omega), if_neg (by omega),
          getElem?_turn (by omega) (by omega), if_neg (by omega), ← shows_ place (by omega)]
        congr 1
        omega
  · rw [if_neg front]
    have turned := (Turns.refl ring).withLen (grown.len + count)
    simp only [ends_bind]
    apply ends_moveElems turned.ring
    · change idx + count + (grown.len - idx) ≤ grown.cap
      omega
    · change idx + (grown.len - idx) ≤ grown.cap
      omega
    · exact Or.inr (by omega)
    · intro later turns
      simp only [ends_pure]
      apply done _ later _ (turned.trans turns) rfl room
      constructor
      · intro place before
        rw [getElem?_shifted (by omega) (by omega), if_neg (by omega)]
        exact shows_ place (by omega)
      · intro place behind within
        rw [getElem?_shifted (by omega) (by omega), if_pos (by omega), ← shows_ place (by omega)]
        congr 1
        omega

theorem ends_openGap (holds : Holds heap.blocks self elems) (inside : idx ≤ self.len)
    (some_ : 0 < count) {post : Status × Deque -> DequeMem α -> Prop}
    (refused : heap.Spared (post (.errNoMem, self)))
    (done : forall (after : Deque) (later : DequeMem α) (view : List (Option α)),
      Turns heap.blocks later.blocks self after view -> after.len = self.len + count ->
      after.len ≤ after.cap -> Gap view elems idx count -> post (.ok, after) later) :
    Ends (openGap α self idx count) heap post := by
  simp only [openGap, ends_bind, ends_require, inside, true_and, ckdAdd]
  by_cases fits : self.len + count < sizeRange
  · simp only [if_pos fits]
    by_cases grow : self.len + count > self.cap
    · simp only [if_pos grow, ends_bind]
      apply ends_reserveFor holds grow
      · intro later same
        simp only [if_refused, ends_pure]
        exact refused later same
      · intro grown later tends room len
        simp only [if_granted]
        apply ends_shift tends.holds (by omega) some_ (by omega) (by omega)
        intro after last view turns
        exact done after last view (tends.turns turns)
    · simp only [if_neg grow, ends_bind, ends_pure, if_granted]
      exact ends_shift holds inside some_ (Nat.le_of_not_lt grow) rfl done
  · simp only [if_neg fits, ends_pure]
    exact refused heap rfl

/-- The elems with `src` put in before the elem at `idx`. -/
def inserted (elems : List α) (idx : Nat) (src : List α) : List α :=
  elems.take idx ++ src ++ elems.drop idx

theorem inserted_nil : inserted elems idx [] = elems := by
  rw [inserted, List.append_nil, List.take_append_drop]

theorem inserted_length (inside : idx ≤ elems.length) :
    (inserted elems idx src).length = elems.length + src.length := by
  simp only [inserted, List.length_append, List.length_take, List.length_drop]
  omega

theorem getElem?_inserted (inside : idx ≤ elems.length) (place : Nat) :
    (inserted elems idx src)[place]? =
      if place < idx then elems[place]?
      else if place < idx + src.length then src[place - idx]?
      else elems[place - src.length]? := by
  have taken : (elems.take idx).length = idx := by
    rw [List.length_take]
    omega
  unfold inserted
  rw [List.append_assoc, List.getElem?_append, taken]
  by_cases before : place < idx
  · rw [if_pos before, if_pos before, List.getElem?_take_of_lt before]
  · rw [if_neg before, if_neg before, List.getElem?_append]
    by_cases within : place < idx + src.length
    · rw [if_pos (by omega), if_pos within]
    · rw [if_neg (by omega), if_neg within, List.getElem?_drop]
      congr 1
      omega

theorem Gap.filled {later : DequeMem α} {next : List (Option α)}
    (gap : Gap view elems idx src.length) (holds : Holds heap.blocks self elems)
    (inside : idx ≤ self.len) (turns : Turns heap.blocks later.blocks self after next)
    (len : after.len = self.len + src.length) (load : after.len ≤ after.cap)
    (outside : forall place, place < idx ∨ idx + src.length ≤ place -> next[place]? = view[place]?)
    (put : forall place, place < src.length -> next[idx + place]? = src[place]?.map some) :
    Tends heap.blocks later.blocks self after (inserted elems idx src) := by
  have elemsLen := holds.len
  apply Tends.of_shows turns
  · rw [inserted_length (by omega), len, elemsLen]
  · exact load
  · intro place within
    rw [inserted_length (by omega)] at within
    rw [getElem?_inserted (by omega)]
    by_cases before : place < idx
    · rw [if_pos before, outside place (Or.inl before), gap.before place before]
    · rw [if_neg before]
      by_cases here : place < idx + src.length
      · rw [if_pos here, ← put (place - idx) (by omega)]
        congr 1
        omega
      · rw [if_neg here, outside place (Or.inr (by omega)),
          ← gap.behind (place - src.length) (by omega) (by omega)]
        congr 1
        omega

theorem ends_insertRaw (holds : Holds heap.blocks self elems) (inside : idx ≤ self.len)
    {post : Status × Deque -> DequeMem α -> Prop}
    (refused : heap.Spared (post (.errNoMem, self)))
    (done : forall (after : Deque) (later : DequeMem α),
      Tends heap.blocks later.blocks self after (inserted elems idx src) -> post (.ok, after) later) :
    Ends (insertRaw self idx src) heap post := by
  unfold insertRaw
  by_cases none_ : src.length = 0
  · rw [if_pos none_, ends_pure]
    apply done
    rw [List.length_eq_zero_iff.mp none_, inserted_nil]
    exact Tends.refl holds
  · simp only [if_neg none_, ends_bind]
    apply ends_openGap holds inside (Nat.pos_of_ne_zero none_)
    · intro later same
      simp only [if_refused, ends_pure]
      exact refused later same
    · intro grown later view turns len load gap
      have length := turns.ring.length
      have fits : idx + (src.map some).length ≤ view.length := by
        rw [List.length_map]
        omega
      simp only [if_granted, ends_bind]
      apply ends_copyRangeIn turns.ring load (by rw [List.length_map]; omega)
      intro last written
      have filled : Tends heap.blocks last.blocks self grown (inserted elems idx src) := by
        apply gap.filled holds inside (turns.trans written) len load
        · intro place outside
          rw [getElem?_overwriteAt fits, List.length_map, if_neg (by omega)]
        · intro place within
          rw [getElem?_overwriteAt fits, List.length_map, if_pos (by omega), Nat.add_sub_cancel_left,
            List.getElem?_map]
      simp only [ends_assertDeque filled.holds.asserts, ends_pure]
      exact done grown last filled

/-- An elem of the deque itself is one place up if it was not before the gap. -/
theorem ends_insert {operand_ : Operand α} (holds : Holds heap.blocks self elems)
    (names : Names self elems val operand_) (inside : idx ≤ self.len)
    {post : Status × Deque -> DequeMem α -> Prop}
    (refused : heap.Spared (post (.errNoMem, self)))
    (done : forall (after : Deque) (later : DequeMem α),
      Tends heap.blocks later.blocks self after (inserted elems idx [val]) ->
      post (.ok, after) later) :
    Ends (insert self idx operand_) heap post := by
  simp only [insert, ends_bind, ends_assertDeque holds.asserts, ends_require, inside,
    true_and, ends_aliasIdx names holds.len]
  cases operand_ with
  | outside given =>
      have same : given = val := names
      subst same
      exact ends_insertRaw holds inside refused done
  | slot slot =>
      simp only [indexOf, ends_bind]
      have found := names.2
      have within := (List.getElem?_eq_some_iff.mp found).1
      have elemsLen := holds.len
      apply ends_openGap holds inside Nat.zero_lt_one
      · intro later same
        simp only [if_refused, ends_pure]
        exact refused later same
      · intro grown later view turns len load gap
        have length := turns.ring.length
        simp only [if_granted, ends_bind]
        have moved : view[if idxOf self slot < idx then idxOf self slot else idxOf self slot + 1]? =
            some (some val) := by
          split
          · rename_i before
            rw [gap.before _ before, found]
            rfl
          · rename_i behind
            rw [Nat.add_comm, gap.behind _ (Nat.le_of_not_lt behind) within, found]
            rfl
        apply ends_moveElem turns.ring (by split <;> omega) (by omega) moved
        intro last written
        have filled : Tends heap.blocks last.blocks self grown (inserted elems idx [val]) := by
          have gap : Gap view elems idx [val].length := gap
          apply gap.filled holds inside (turns.trans written) len load
          · intro place outside
            rw [List.length_singleton] at outside
            rw [List.getElem?_set, if_neg (by omega)]
          · intro place first
            rw [List.length_singleton] at first
            rw [Nat.lt_one_iff.mp first, Nat.add_zero, List.getElem?_set, if_pos rfl,
              if_pos (by omega)]
            rfl
        simp only [ends_assertDeque filled.holds.asserts, ends_pure]
        exact done grown last filled

theorem ends_insertSpan {span : SpanView α} (holds : Holds heap.blocks self elems)
    (sameElem : self.elem = span.elem) (inside : idx ≤ self.len)
    {post : Status × Deque -> DequeMem α -> Prop}
    (refused : heap.Spared (post (.errNoMem, self)))
    (done : forall (after : Deque) (later : DequeMem α),
      Tends heap.blocks later.blocks self after (inserted elems idx span.elems) ->
      post (.ok, after) later) :
    Ends (insertSpan self idx span) heap post := by
  simp only [insertSpan, ends_bind, ends_assertDeque holds.asserts, ends_require, sameElem,
    inside, true_and]
  exact ends_insertRaw holds inside refused done

theorem ends_extend {span : SpanView α} (holds : Holds heap.blocks self elems)
    (sameElem : self.elem = span.elem) {post : Status × Deque -> DequeMem α -> Prop}
    (refused : heap.Spared (post (.errNoMem, self)))
    (done : forall (after : Deque) (later : DequeMem α),
      Tends heap.blocks later.blocks self after (elems ++ span.elems) -> post (.ok, after) later) :
    Ends (extend self span) heap post := by
  simp only [extend, ends_bind, ends_assertDeque holds.asserts, ends_require, sameElem,
    true_and]
  apply ends_insertSpan holds sameElem (Nat.le_refl _) refused
  intro after later tends
  apply done after later
  rw [holds.len, inserted, List.take_length, List.drop_length, List.append_nil] at tends
  exact tends

/-! ## Removing -/

/-- The elems without the `count` ones from `idx` on. -/
def removed (elems : List α) (idx count : Nat) : List α :=
  elems.take idx ++ elems.drop (idx + count)

theorem removed_length (within : idx + count ≤ elems.length) :
    (removed elems idx count).length = elems.length - count := by
  simp only [removed, List.length_append, List.length_take, List.length_drop]
  omega

theorem getElem?_removed (within : idx + count ≤ elems.length) (place : Nat) :
    (removed elems idx count)[place]? =
      if place < idx then elems[place]? else elems[place + count]? := by
  have taken : (elems.take idx).length = idx := by
    rw [List.length_take]
    omega
  unfold removed
  rw [List.getElem?_append, taken]
  by_cases before : place < idx
  · rw [if_pos before, if_pos before, List.getElem?_take_of_lt before]
  · rw [if_neg before, if_neg before, List.getElem?_drop]
    congr 1
    omega

/-- The gap is closed, from either side. -/
theorem ends_removeRange (holds : Holds heap.blocks self elems) (inside : idx ≤ self.len)
    (within : count ≤ self.len - idx) {post : Deque -> DequeMem α -> Prop}
    (done : forall (after : Deque) (later : DequeMem α),
      Tends heap.blocks later.blocks self after (removed elems idx count) -> post after later) :
    Ends (removeRange α self idx count) heap post := by
  have elemsLen := holds.len
  have load := holds.load
  simp only [removeRange, ends_bind, ends_assertDeque holds.asserts, ends_require, inside,
    within, true_and]
  by_cases none_ : count = 0
  · rw [if_pos none_, ends_pure]
    apply done
    rw [none_, removed, Nat.add_zero, List.take_append_drop]
    exact Tends.refl holds
  · rw [if_neg none_]
    rcases holds.shows with ⟨view, ring, shows_⟩
    have length := ring.length
    have roomy : 0 < self.cap := by omega
    rcases ring.room roomy with ⟨_, _, _, _, _, _, start⟩
    by_cases front : idx < self.len - idx - count
    · simp only [if_pos front, ends_bind]
      apply ends_moveElems ring (by omega) (by omega) (Or.inr none_)
      intro later turns
      have shiftedLen : (shifted view count 0 idx).length = self.cap := turns.ring.length
      rw [ends_slotFwd ring.cap_lt start (by omega)]
      have closed : Tends heap.blocks later.blocks self { self with
          head := (self.head + count) % self.cap, len := self.len - count }
          (removed elems idx count) := by
        apply Tends.of_shows ((turns.trans (turns.ring.fwd roomy count)).withLen (self.len - count))
        · rw [removed_length (by omega), ← elemsLen]
        · exact Nat.le_trans (Nat.sub_le _ _) load
        · intro place left
          rw [removed_length (by omega)] at left
          rw [getElem?_turn (by omega) (by omega), if_pos (by omega),
            getElem?_shifted (by omega) (by omega), getElem?_removed (by omega)]
          by_cases before : place < idx
          · rw [if_pos (by omega), if_pos before, ← shows_ place (by omega)]
            congr 1
            omega
          · rw [if_neg (by omega), if_neg before, Nat.add_comm, shows_ _ (by omega)]
      simp only [ends_assertDeque closed.holds.asserts, ends_pure]
      exact done _ later closed
    · simp only [if_neg front, ends_bind]
      apply ends_moveElems ring (by omega) (by omega) (Or.inr (by omega))
      intro later turns
      have closed : Tends heap.blocks later.blocks self { self with len := self.len - count }
          (removed elems idx count) := by
        apply Tends.of_shows (turns.withLen (self.len - count))
        · rw [removed_length (by omega), ← elemsLen]
        · exact Nat.le_trans (Nat.sub_le _ _) load
        · intro place left
          rw [removed_length (by omega)] at left
          rw [getElem?_shifted (by omega) (by omega), getElem?_removed (by omega)]
          by_cases before : place < idx
          · rw [if_neg (by omega), if_pos before, shows_ place (by omega)]
          · rw [if_pos (by omega), if_neg before, ← shows_ _ (by omega)]
            congr 1
            omega
      simp only [ends_assertDeque closed.holds.asserts, ends_pure]
      exact done _ later closed

theorem ends_remove (holds : Holds heap.blocks self elems) (inside : idx < self.len)
    {post : Deque -> DequeMem α -> Prop}
    (done : forall (after : Deque) (later : DequeMem α),
      Tends heap.blocks later.blocks self after (elems.eraseIdx idx) -> post after later) :
    Ends (remove α self idx) heap post := by
  simp only [remove, ends_bind, ends_assertDeque holds.asserts, ends_require, inside,
    true_and]
  apply ends_removeRange holds (Nat.le_of_lt inside) (by omega)
  intro after later tends
  apply done after later
  rw [List.eraseIdx_eq_take_drop_succ]
  exact tends

/-! ## Retaining -/

/-- The state of `retain` before it asks about the elem at `idx`: the elems
kept so far are in front, those not yet asked about where they were. -/
structure Retaining (heap later : DequeMem α) (deque : Deque) (elems : List α) (pred : Pred α C)
    (ctx : C) (idx : Nat) (vars : Nat × C) (view : List (Option α)) : Prop where
  turns : Turns heap.blocks later.blocks deque deque view
  ctx_eq : vars.2 = (sift pred ctx (elems.take idx)).2
  count : vars.1 = (sift pred ctx (elems.take idx)).1.length
  kept : forall place, place < vars.1 ->
    view[place]? = (sift pred ctx (elems.take idx)).1[place]?.map some
  rest : forall place, idx ≤ place -> place < elems.length -> view[place]? = elems[place]?.map some

namespace Retaining

variable {later last : DequeMem α} {pred : Pred α C} {ctx : C} {vars : Nat × C}
  {next : List (Option α)}

theorem count_le (state : Retaining heap later self elems pred ctx idx vars view) :
    vars.1 ≤ idx := by
  have fewer : (sift pred ctx (elems.take idx)).1.length ≤ (elems.take idx).length :=
    sift_sublist.length_le
  rw [List.length_take, ← state.count] at fewer
  omega

theorem asked (state : Retaining heap later self elems pred ctx idx vars view)
    (inside : idx < elems.length) :
    sift pred ctx (elems.take (idx + 1)) = ((sift pred ctx (elems.take idx)).1 ++
      (if (pred elems[idx] vars.2).1 then [elems[idx]] else []), (pred elems[idx] vars.2).2) := by
  rw [List.take_succ_eq_append_getElem inside, sift_snoc, ← state.ctx_eq]

theorem dropped (state : Retaining heap later self elems pred ctx idx vars view)
    (inside : idx < elems.length) (no : (pred elems[idx] vars.2).1 = false) :
    Retaining heap later self elems pred ctx (idx + 1) (vars.1, (pred elems[idx] vars.2).2)
      view := by
  have asked := state.asked inside
  simp only [no, Bool.false_eq_true, if_false, List.append_nil] at asked
  constructor
  · exact state.turns
  · rw [asked]
  · rw [asked]
    exact state.count
  · rw [asked]
    exact state.kept
  · exact fun place behind => state.rest place (Nat.le_of_succ_le behind)

/-- The elem at `idx` is found behind those kept so far. -/
theorem moved (state : Retaining heap later self elems pred ctx idx vars view)
    (inside : idx < elems.length) (yes : (pred elems[idx] vars.2).1 = true)
    (turns : Turns heap.blocks last.blocks self self next)
    (here : next[vars.1]? = some (some elems[idx]))
    (others : forall place, place ≠ vars.1 -> next[place]? = view[place]?) :
    Retaining heap last self elems pred ctx (idx + 1) (vars.1 + 1, (pred elems[idx] vars.2).2)
      next := by
  have asked := state.asked inside
  have count := state.count
  have few := state.count_le
  simp only [yes, if_true] at asked
  constructor
  · exact turns
  · rw [asked]
  · rw [asked, List.length_append, List.length_singleton, ← count]
  · intro place below
    rw [asked, List.getElem?_append, ← count]
    by_cases last_ : place = vars.1
    · rw [last_, here, if_neg (Nat.lt_irrefl _), Nat.sub_self]
      rfl
    · have before : place < vars.1 := Nat.lt_of_le_of_ne (Nat.le_of_lt_succ below) last_
      rw [if_pos before, others place last_]
      exact state.kept place before
  · intro place behind within
    rw [others place (by omega)]
    exact state.rest place (Nat.le_of_succ_le behind) within

end Retaining

theorem ends_retain {pred : Pred α C} {ctx : C} (holds : Holds heap.blocks self elems)
    {post : Deque × C -> DequeMem α -> Prop}
    (done : forall (after : Deque) (later : DequeMem α),
      Tends heap.blocks later.blocks self after (sift pred ctx elems).1 ->
      post (after, (sift pred ctx elems).2) later) :
    Ends (retain self pred ctx) heap post := by
  have elemsLen := holds.len
  have load := holds.load
  simp only [retain, ends_bind, ends_assertDeque holds.asserts]
  apply ends_countUp (fun i vars later =>
    exists view, Retaining heap later self elems pred ctx i vars view)
    (show 0 + self.len = self.len by omega)
  · intro i vars later _ below state
    rcases state with ⟨view, state⟩
    have inside : i < elems.length := by omega
    have few := state.count_le
    have length := state.turns.ring.length
    have here := state.rest i (Nat.le_refl i) inside
    rw [List.getElem?_eq_getElem inside] at here
    simp only [ends_bind, ends_elemAt state.turns.ring here, ends_demand_some]
    cases answer : (pred elems[i] vars.2).1 with
    | false =>
        simp only [Bool.false_eq_true, if_false, ends_pure]
        exact ⟨view, state.dropped inside answer⟩
    | true =>
        simp only [if_true]
        by_cases inPlace : vars.1 = i
        · simp only [inPlace, ne_eq, not_true_eq_false, if_false, ends_pure]
          have moved := state.moved inside answer state.turns (inPlace ▸ here) fun _ _ => rfl
          rw [inPlace] at moved
          exact ⟨view, moved⟩
        · simp only [ne_eq, inPlace, not_false_eq_true, if_true, ends_bind]
          apply ends_moveElem state.turns.ring inPlace (by omega) here
          intro last turns
          simp only [ends_pure]
          apply Exists.intro
          apply state.moved inside answer (state.turns.trans turns)
          · rw [List.getElem?_set, if_pos rfl, if_pos (by omega)]
          · intro place different
            rw [List.getElem?_set, if_neg (Ne.symm different)]
  · intro vars later state
    rcases state with ⟨view, state⟩
    have count := state.count
    have few := state.count_le
    have ctx_eq := state.ctx_eq
    rw [elemsLen, List.take_length] at count ctx_eq
    have kept : Tends heap.blocks later.blocks self { self with len := vars.1 }
        (sift pred ctx elems).1 := by
      apply Tends.of_shows (state.turns.withLen vars.1) count
      · exact Nat.le_trans few load
      · intro place inside
        have shown := state.kept place (by omega)
        rw [elemsLen, List.take_length] at shown
        exact shown
    simp only [ends_assertDeque kept.holds.asserts, ends_pure, ctx_eq]
    exact done _ later kept
  · rcases holds.shows with ⟨view, ring, shows_⟩
    apply Exists.intro view
    constructor
    · exact Turns.refl ring
    · rfl
    · rfl
    · exact fun _ impossible => absurd impossible (Nat.not_lt_zero _)
    · exact fun place _ inside => shows_ place (by omega)

end Deque
end TerseDsa
