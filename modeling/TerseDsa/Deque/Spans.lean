import TerseDsa.Deque.Contents

namespace TerseDsa

open Foundation Run

/-!
# What a deque shows

The contents as one or two runs of the block, copied out or in, and compared
with those of another deque.
-/

namespace Deque

variable {α : Type} {heap : DequeMem α} {self : Deque} {elems rest : List α} {count : Nat}

theorem ends_copyToSpan (holds : Holds heap.blocks self elems)
    {post : List (Option α) -> DequeMem α -> Prop} :
    Ends (copyToSpan self elems.length self.elem) heap post <-> post (elems.map some) heap := by
  rcases holds.ring with ⟨view, ring, shows_⟩
  simp only [copyToSpan, ends_bind, ends_assertDeque holds.asserts, ends_require, holds.len,
    true_and, ends_copyOut ring holds.load]
  rw [← holds.len, shows_]

theorem ends_copyFromSpan {span : SpanView α} (holds : Holds heap.blocks self elems)
    (sameElem : self.elem = span.elem) (len : span.len = self.len)
    {post : Unit -> DequeMem α -> Prop}
    (done : forall later : DequeMem α,
      Tends heap.blocks later.blocks self self span.elems -> post () later) :
    Ends (copyFromSpan self span) heap post := by
  rcases holds.ring with ⟨view, ring, _⟩
  have load := holds.load
  have fits : 0 + (span.elems.map some).length ≤ self.len := by
    rw [List.length_map, Nat.zero_add]
    exact Nat.le_of_eq len
  simp only [copyFromSpan, ends_bind, ends_assertDeque holds.asserts, ends_require, sameElem,
    len, true_and]
  apply ends_copyRangeIn ring load fits
  intro later turns
  apply done
  apply Tends.of_turns turns _ load
  have total : (span.elems.map some).length = self.len := by
    rw [List.length_map]
    exact len
  rw [overwriteAt, List.take_zero, List.nil_append, ← total, List.take_left']
  rfl

/-- What `to_spans` makes of the contents: two runs of the block, the elems of
the one before those of the other. -/
structure Spans (heap : DequeMem α) (deque : Deque) (elems : List α) (front back : DequeSpan) :
    Prop where
  concat : exists first second, elems = first ++ second ∧
    Ends (viewSpan front) heap (fun vals later => vals = first.map some ∧ later = heap) ∧
    Ends (viewSpan back) heap (fun vals later => vals = second.map some ∧ later = heap)
  inside : front.slot + front.len ≤ deque.cap ∧ back.slot + back.len ≤ deque.cap
  apart : forall slot, front.slot ≤ slot -> slot < front.slot + front.len ->
    back.slot ≤ slot -> slot < back.slot + back.len -> False

theorem ends_viewSpan {slots : List (Option α)} {data : Option Addr} {addr : Addr} {tag : AlTag}
    {elem : Layout} (at_ : data = some addr) (here : heap.blocks addr = some ⟨tag, slots⟩)
    {slot : Nat} (fits : slot + count ≤ slots.length) {post : List (Option α) -> DequeMem α -> Prop} :
    Ends (viewSpan ⟨data, slot, count, elem⟩) heap post <->
      post ((slots.drop slot).take count) heap := by
  unfold viewSpan
  by_cases none_ : count = 0
  · rw [if_pos none_, ends_pure, none_, List.take_zero]
  · rw [if_neg none_]
    exact ends_readRun at_ here fits

theorem ends_toSpans (holds : Holds heap.blocks self elems)
    {post : DequeSpan × DequeSpan -> DequeMem α -> Prop}
    (done : forall front back, Spans heap self elems front back -> post (front, back) heap) :
    Ends (toSpans self) heap post := by
  have load := holds.load
  have elemsLen := holds.len
  rcases holds.ring with ⟨view, ring, shows_⟩
  have bound := ring.cap_lt
  simp only [toSpans, ends_bind, ends_assertDeque holds.asserts, firstRun]
  rw [ends_runFrom bound (by rcases ring.start with ⟨_, atZero⟩ | inside <;> omega)]
  have short := runLength_le self.cap self.head self.len
  simp only [ends_require, ends_pure]
  constructor
  · omega
  apply done
  by_cases none_ : self.len = 0
  · have empty : elems = [] := List.length_eq_zero_iff.mp (by omega)
    have noRun : runLength self.cap self.head self.len = 0 := by omega
    rw [noRun, none_, if_neg (fun different => different rfl)]
    constructor
    · apply Exists.intro []
      apply Exists.intro []
      rw [empty]
      simp [viewSpan]
    · exact ⟨Nat.zero_le _, Nat.zero_le _⟩
    · intro slot _ below
      exact absurd below (Nat.not_lt_zero _)
  · rcases ring.room (by omega) with ⟨addr, slots, data, here, rotated, length, start⟩
    have fits := add_runLength_le (Nat.le_of_lt start) self.len
    have some_ : runLength self.cap self.head self.len ≠ 0 := by
      unfold runLength
      split <;> omega
    have first : slotOf self 0 = self.head := by
      rw [slotOf_eq bound start (by omega), lap, if_pos (by omega), Nat.add_zero]
    rw [if_pos some_, first]
    have parts : elems.map some = (slots.drop self.head).take (runLength self.cap self.head self.len) ++
        slots.take (self.len - runLength self.cap self.head self.len) := by
      rw [← shows_, rotated, take_rotate (by omega) (by omega), length]
    have frontLen : ((slots.drop self.head).take (runLength self.cap self.head self.len)).length =
        runLength self.cap self.head self.len := by
      rw [List.length_take, List.length_drop]
      omega
    constructor
    · apply Exists.intro (elems.take (runLength self.cap self.head self.len))
      apply Exists.intro (elems.drop (runLength self.cap self.head self.len))
      constructor
      · exact (List.take_append_drop _ _).symm
      · rw [ends_viewSpan data here (by omega), ends_viewSpan data here (by omega), List.map_take,
          List.map_drop, parts, List.take_left' frontLen, List.drop_left' frontLen, List.drop_zero]
        exact ⟨⟨rfl, rfl⟩, rfl, rfl⟩
    · change self.head + runLength self.cap self.head self.len ≤ self.cap ∧
        0 + (self.len - runLength self.cap self.head self.len) ≤ self.cap
      omega
    · intro slot from_ below _ under
      change self.head ≤ slot at from_
      change slot < 0 + (self.len - runLength self.cap self.head self.len) at under
      unfold runLength at under
      split at under <;> omega

theorem ends_eqImpl {other : Deque} {eq : α -> α -> Bool} (holds : Holds heap.blocks self elems)
    (also : Holds heap.blocks other rest) {post : Bool -> DequeMem α -> Prop}
    (done : forall answer, (answer = true <-> List.Forall₂ (fun a b => eq a b = true) elems rest) ->
      post answer heap) :
    Ends (eqImpl self other eq) heap post := by
  have elemsLen := holds.len
  have restLen := also.len
  unfold eqImpl
  by_cases different : self.len = other.len
  · rw [if_neg (fun no => no different)]
    apply ends_loop (fun todo i mem => mem = heap ∧ todo + i = self.len ∧
      forall place (low : place < elems.length) (under : place < rest.length), place < i ->
        eq elems[place] rest[place] = true)
    · intro todo i mem state
      rcases state with ⟨rfl, total, alike⟩
      by_cases more : i < self.len
      · have foundA : elems[i]? = some elems[i] := List.getElem?_eq_getElem (by omega)
        have foundB : rest[i]? = some rest[i] := List.getElem?_eq_getElem (by omega)
        simp only [if_pos more, ends_bind, ends_elem holds foundA, ends_elem also foundB,
          ends_demand_some]
        cases same : eq elems[i] rest[i] with
        | true =>
            simp only [if_true, ends_pure]
            apply Exists.intro (todo - 1)
            refine ⟨by omega, True.intro, by omega, ?_⟩
            intro place low under before
            by_cases here : place = i
            · subst here
              exact same
            · exact alike place low under (by omega)
        | false =>
            simp only [Bool.false_eq_true, if_false, ends_pure]
            apply done
            rw [List.forall₂_iff_get]
            constructor
            · exact fun impossible => absurd impossible Bool.false_ne_true
            · intro all
              have yes := all.2 i (by omega) (by omega)
              exact absurd (same.symm.trans yes) Bool.false_ne_true
      · simp only [if_neg more, ends_pure]
        apply done
        rw [List.forall₂_iff_get]
        constructor
        · intro _
          exact ⟨by omega, fun place low under => alike place low under (by omega)⟩
        · exact fun _ => rfl
    · exact ⟨rfl, Nat.add_zero self.len, fun _ _ _ impossible => absurd impossible (Nat.not_lt_zero _)⟩
    · exact Nat.lt_succ_self _
  · rw [if_pos different, ends_pure]
    apply done
    constructor
    · exact fun impossible => absurd impossible Bool.false_ne_true
    · intro all
      have lengths := all.length_eq
      exact absurd (by omega) different

end Deque
end TerseDsa
