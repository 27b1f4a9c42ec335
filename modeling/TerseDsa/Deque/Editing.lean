import TerseDsa.Deque.Growth
import TerseDsa.Foundation.Sift

namespace TerseDsa

open Foundation Run

/-!
# The operations of a deque, on its elems

For each operation, what becomes of the list of elems.  The view of the ring
is compared with the elems place by place, since an operation may turn the
ring, move elems over it and write it in any of these orders.
-/

namespace Deque

variable {α C S : Type} {heap : DequeMem α} {self after : Deque} {view : List (Option α)}
  {elems rest src : List α} {idx count newLen : Nat} {val : α}

/-! ## Reading the elems off the view -/

/-- The first places of the view are the elems. -/
theorem shows_iff (length : elems.length ≤ view.length) :
    view.take elems.length = elems.map some <->
      forall place, place < elems.length -> view[place]? = elems[place]?.map some := by
  constructor
  · intro same place inside
    have at_ := congrArg (fun list => list[place]?) same
    simp only [List.getElem?_take_of_lt inside, List.getElem?_map] at at_
    exact at_
  · intro agree
    apply List.ext_getElem?
    intro place
    rw [List.getElem?_map]
    by_cases inside : place < elems.length
    · rw [List.getElem?_take_of_lt inside]
      exact agree place inside
    · rw [List.getElem?_eq_none (by rw [List.length_take]; omega),
        List.getElem?_eq_none (Nat.le_of_not_lt inside)]
      rfl

/-- A deque that is held shows its elems on some ring. -/
theorem Holds.shows (holds : Holds heap.blocks self elems) :
    exists view, Ring heap.blocks self view ∧
      forall place, place < self.len -> view[place]? = elems[place]?.map some := by
  rcases holds.ring with ⟨view, ring, same⟩
  have load := holds.load
  have length := ring.length
  rw [holds.len] at same load ⊢
  exact ⟨view, ring, (shows_iff (by omega)).mp same⟩

/-- A step on the ring, with the elems read off place by place. -/
theorem Tends.of_shows {later : DequeMem α} (turns : Turns heap.blocks later.blocks self after view)
    (len : after.len = elems.length) (load : after.len ≤ after.cap)
    (shows_ : forall place, place < elems.length -> view[place]? = elems[place]?.map some) :
    Tends heap.blocks later.blocks self after elems := by
  apply Tends.of_turns turns _ load
  rw [len]
  apply (shows_iff _).mpr shows_
  rw [turns.ring.length, ← len]
  exact load

/-- Turning the ring by part of a lap. -/
theorem getElem?_turn (within : count ≤ view.length) {place : Nat} (inside : place < view.length) :
    (view.rotate count)[place]? =
      if place < view.length - count then view[count + place]?
      else view[place - (view.length - count)]? := by
  by_cases whole : count = view.length
  · rw [whole, List.rotate_length, Nat.sub_self, if_neg (Nat.not_lt_zero _), Nat.sub_zero]
  · rw [getElem?_rotate_lap (by omega) inside, lap]
    split <;> rfl

theorem ends_elem (holds : Holds heap.blocks self elems) (found : elems[idx]? = some val)
    {post : Option α -> DequeMem α -> Prop} :
    Ends (elemAt self idx) heap post <-> post (some val) heap := by
  rcases holds.shows with ⟨view, ring, shows_⟩
  apply ends_elemAt ring
  have inside := (List.getElem?_eq_some_iff.mp found).1
  rw [shows_ idx (by rw [holds.len]; exact inside), found]
  rfl

/-! ## Operands -/

/-- The elem an operand names: an outside value, or an elem of the deque. -/
def Names (self : Deque) (elems : List α) (val : α) : Operand α -> Prop
  | .outside given => given = val
  | .slot slot => slot < self.cap ∧ elems[idxOf self slot]? = some val

/-- The index kept of an operand. -/
def indexOf (self : Deque) : Operand α -> Option Nat
  | .outside _ => none
  | .slot slot => some (idxOf self slot)

theorem ends_aliasIdx {operand_ : Operand α} (names : Names self elems val operand_)
    (len : self.len = elems.length) {s : S} {post : Option Nat -> S -> Prop} :
    Ends (aliasIdx self operand_) s post <-> post (indexOf self operand_) s := by
  cases operand_ with
  | outside given => simp only [aliasIdx, ends_pure, indexOf]
  | slot slot =>
      rcases names with ⟨inBlock, found⟩
      have inside : idxOf self slot < self.len := by
        rw [len]
        exact (List.getElem?_eq_some_iff.mp found).1
      simp only [aliasIdx, ends_bind, ends_require, inBlock, inside, true_and, ends_pure,
        indexOf]

/-- Growth keeps the elems, so the elem is found again by its index. -/
theorem ends_operand {operand_ : Operand α} (names : Names self elems val operand_)
    (holds : Holds heap.blocks after elems) {post : Option α -> DequeMem α -> Prop} :
    Ends (operand after operand_ (indexOf self operand_)) heap post <->
      post (some val) heap := by
  cases operand_ with
  | outside given =>
      have same : given = val := names
      rw [same]
      exact ends_pure _ _ _
  | slot slot => exact ends_elem holds names.2

/-! ## The ends -/

theorem ends_pushBack {operand_ : Operand α} (holds : Holds heap.blocks self elems)
    (names : Names self elems val operand_) {post : Status × Deque -> DequeMem α -> Prop}
    (refused : heap.Spared (post (.errNoMem, self)))
    (done : forall (after : Deque) (later : DequeMem α),
      Tends heap.blocks later.blocks self after (elems ++ [val]) -> post (.ok, after) later) :
    Ends (pushBack self operand_) heap post := by
  simp only [pushBack, ends_bind, ends_assertDeque holds.asserts, ends_aliasIdx names holds.len]
  apply ends_reserveOne holds
  · intro later same
    simp only [if_refused, ends_pure]
    exact refused later same
  · intro grown later tends room len
    simp only [if_granted, ends_bind, ends_operand names tends.holds]
    rcases tends.holds.shows with ⟨view, ring, shows_⟩
    apply ends_setElemAt ring room
    intro last turns
    have pushed : Tends later.blocks last.blocks grown { grown with len := grown.len + 1 }
        (elems ++ [val]) := by
      apply Tends.of_shows (turns.withLen (grown.len + 1))
      · rw [List.length_append, List.length_singleton, ← tends.holds.len]
      · exact room
      · intro place inside
        rw [List.length_append, List.length_singleton, ← tends.holds.len] at inside
        rw [List.getElem?_set, ring.length, List.getElem?_append, ← tends.holds.len]
        by_cases here : grown.len = place
        · subst here
          rw [if_pos rfl, if_pos room, if_neg (Nat.lt_irrefl _), Nat.sub_self]
          rfl
        · rw [if_neg here, if_pos (by omega)]
          exact shows_ place (by omega)
    simp only [ends_assertDeque pushed.holds.asserts, ends_pure]
    exact done _ last (tends.trans pushed)

/-- The slot at the head is the first of the ring. -/
theorem ends_writeHead (ring : Ring heap.blocks self view) (room : 0 < self.cap) {val : Option α}
    {post : Unit -> DequeMem α -> Prop}
    (holds : forall later : DequeMem α,
      Turns heap.blocks later.blocks self self (view.set 0 val) -> post () later) :
    Ends (writeSlot self.data self.head val) heap post := by
  rcases ring.room room with ⟨addr, slots, data, here, rotated, length, start⟩
  apply ends_writeSlot ring data here length start
  intro later turns
  apply holds
  have first : lap slots.length self.head 0 = self.head := by
    unfold lap
    rw [if_pos (by omega), Nat.add_zero]
  have write : (slots.set (lap slots.length self.head 0) val).rotate self.head =
      (slots.rotate self.head).set 0 val := rotate_set (by omega) (by omega) val
  rw [first] at write
  rw [rotated, ← write]
  exact turns

theorem ends_pushFront {operand_ : Operand α} (holds : Holds heap.blocks self elems)
    (names : Names self elems val operand_) {post : Status × Deque -> DequeMem α -> Prop}
    (refused : heap.Spared (post (.errNoMem, self)))
    (done : forall (after : Deque) (later : DequeMem α),
      Tends heap.blocks later.blocks self after (val :: elems) -> post (.ok, after) later) :
    Ends (pushFront self operand_) heap post := by
  simp only [pushFront, ends_bind, ends_assertDeque holds.asserts, ends_aliasIdx names holds.len]
  apply ends_reserveOne holds
  · intro later same
    simp only [if_refused, ends_pure]
    exact refused later same
  · intro grown later tends room len
    simp only [if_granted, ends_bind, ends_operand names tends.holds]
    rcases tends.holds.shows with ⟨view, ring, shows_⟩
    have some_ : 0 < grown.cap := Nat.zero_lt_of_lt room
    rcases ring.room some_ with ⟨_, _, _, _, _, _, start⟩
    rw [ends_slotBack ring.cap_lt start some_]
    have turned := ring.fwd some_ (grown.cap - 1)
    have length := ring.length
    apply ends_writeHead turned.ring some_
    intro last turns
    have pushed : Tends later.blocks last.blocks grown { grown with
        head := (grown.head + (grown.cap - 1)) % grown.cap, len := grown.len + 1 }
        (val :: elems) := by
      apply Tends.of_shows ((turned.trans turns).withLen (grown.len + 1))
      · rw [List.length_cons, ← tends.holds.len]
      · exact room
      · intro place inside
        rw [List.length_cons, ← tends.holds.len] at inside
        rw [List.getElem?_set, List.length_rotate, List.getElem?_cons]
        by_cases here : 0 = place
        · rw [if_pos here, if_pos (by omega), if_pos here.symm]
          rfl
        · rw [if_neg here, if_neg (Ne.symm here), getElem?_turn (by omega) (by omega),
            if_neg (by omega), ← shows_ (place - 1) (by omega)]
          congr 1
          omega
    simp only [ends_assertDeque pushed.holds.asserts, ends_pure]
    exact done _ last (tends.trans pushed)

theorem ends_popFront (holds : Holds heap.blocks self (val :: elems))
    {post : Deque -> DequeMem α -> Prop}
    (done : forall after : Deque, Tends heap.blocks heap.blocks self after elems -> post after heap) :
    Ends (popFront self) heap post := by
  rcases holds.shows with ⟨view, ring, shows_⟩
  have len := holds.len
  have load := holds.load
  have length := ring.length
  rw [List.length_cons] at len
  have some_ : 0 < self.cap := by omega
  rcases ring.room some_ with ⟨_, _, _, _, _, _, start⟩
  simp only [popFront, ends_bind, ends_assertDeque holds.asserts, ends_require,
    show self.len > 0 by omega, true_and, ends_slotFwd ring.cap_lt start some_]
  have popped : Tends heap.blocks heap.blocks self { self with
      head := (self.head + 1) % self.cap, len := self.len - 1 } elems := by
    apply Tends.of_shows ((ring.fwd some_ 1).withLen (self.len - 1))
    · change self.len - 1 = _
      omega
    · change self.len - 1 ≤ self.cap
      omega
    · intro place inside
      rw [getElem?_turn (by omega) (by omega), if_pos (by omega), Nat.add_comm,
        shows_ (place + 1) (by omega), List.getElem?_cons_succ]
  simp only [ends_assertDeque popped.holds.asserts, ends_pure]
  exact done _ popped

/-- With fewer elems the ring is the same. -/
theorem Holds.fewer (holds : Holds heap.blocks self elems) (fewer : newLen ≤ self.len) :
    Tends heap.blocks heap.blocks self { self with len := newLen } (elems.take newLen) := by
  rcases holds.shows with ⟨view, ring, shows_⟩
  have len := holds.len
  have load := holds.load
  apply Tends.of_shows ((Turns.refl ring).withLen newLen)
  · rw [List.length_take]
    change newLen = _
    omega
  · change newLen ≤ self.cap
    omega
  · intro place inside
    rw [List.length_take] at inside
    rw [List.getElem?_take_of_lt (by omega)]
    exact shows_ place (by omega)

theorem ends_popBack (holds : Holds heap.blocks self (elems ++ [val]))
    {post : Deque -> DequeMem α -> Prop}
    (done : forall after : Deque, Tends heap.blocks heap.blocks self after elems -> post after heap) :
    Ends (popBack self) heap post := by
  have len := holds.len
  rw [List.length_append, List.length_singleton] at len
  have popped := holds.fewer (Nat.sub_le self.len 1)
  rw [len, Nat.add_sub_cancel, List.take_left' rfl] at popped
  simp only [popBack, ends_bind, ends_assertDeque holds.asserts, ends_require,
    len, Nat.add_sub_cancel,
    ends_assertDeque popped.holds.asserts, ends_pure]
  exact ⟨Nat.succ_pos _, done _ popped⟩

/-! ## Popping to an outside object -/

theorem ends_popFrontTo (holds : Holds heap.blocks self (val :: elems))
    {post : α × Deque -> DequeMem α -> Prop}
    (done : forall after : Deque, Tends heap.blocks heap.blocks self after elems ->
      post (val, after) heap) :
    Ends (popFrontTo self .outside) heap post := by
  have some_ : self.len > 0 := by
    rw [holds.len]
    exact Nat.succ_pos _
  have found : (val :: elems)[0]? = some val := rfl
  simp only [popFrontTo, moveOut, ends_bind, ends_assertDeque holds.asserts, ends_require,
    some_, true_and, ends_elem holds found, ends_demand_some, ends_pure]
  apply ends_popFront holds
  exact done

theorem ends_popBackTo (holds : Holds heap.blocks self (elems ++ [val]))
    {post : α × Deque -> DequeMem α -> Prop}
    (done : forall after : Deque, Tends heap.blocks heap.blocks self after elems ->
      post (val, after) heap) :
    Ends (popBackTo self .outside) heap post := by
  have len := holds.len
  rw [List.length_append, List.length_singleton] at len
  have found : (elems ++ [val])[self.len - 1]? = some val := by
    rw [len, Nat.add_sub_cancel, List.getElem?_append_right (Nat.le_refl _), Nat.sub_self]
    rfl
  have some_ : self.len > 0 := by
    rw [len]
    exact Nat.succ_pos _
  simp only [popBackTo, moveOut, ends_bind, ends_assertDeque holds.asserts, ends_require,
    some_, true_and, ends_elem holds found, ends_demand_some, ends_pure]
  apply ends_popBack holds
  exact done

end Deque
end TerseDsa
