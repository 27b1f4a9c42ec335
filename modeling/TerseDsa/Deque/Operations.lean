import TerseDsa.Deque.Lifetime
import TerseDsa.Deque.Spans

namespace TerseDsa

open Foundation Run

/-!
# The operations on one deque

`Op` is any public operation on one deque, with its arguments.  Beside each
stands what it is on a plain list: `Op.apply` says what becomes of the elems,
`Op.answer` what is handed out.
-/

namespace Deque

variable {α C : Type} {heap : DequeMem α} {self : Deque} {elems : List α} {zero : α}

/-- What a `const void *val` names: an elem outside the deque, or one of its own. -/
inductive Source (α : Type) where
  | outside (val : α)
  | own (idx : Nat)

namespace Source

/-- The pointer. -/
def operand (deque : Deque) : Source α -> Operand α
  | outside val => .outside val
  | own idx => .slot (slotOf deque idx)

/-- The elem behind it. -/
def elem? (elems : List α) : Source α -> Option α
  | outside val => some val
  | own idx => elems[idx]?

def Allowed (deque : Deque) : Source α -> Prop
  | outside _ => True
  | own idx => idx < deque.len

theorem names {source : Source α} (holds : Holds heap.blocks self elems)
    (allowed : source.Allowed self) :
    exists val, source.elem? elems = some val ∧ Names self elems val (source.operand self) := by
  cases source with
  | outside val => exact ⟨val, rfl, rfl⟩
  | own idx =>
      have inside : idx < self.len := allowed
      have load := holds.load
      have within : idx < elems.length := holds.len ▸ inside
      have found : elems[idx]? = some elems[idx] := List.getElem?_eq_getElem within
      rcases holds.ring with ⟨view, ring, _⟩
      rcases ring.room (by omega) with ⟨_, _, _, _, _, _, start⟩
      apply Exists.intro elems[idx]
      apply And.intro found
      constructor
      · rw [slotOf_eq ring.cap_lt start (by omega)]
        exact lap_lt start (by omega)
      · rw [idxOf_slotOf ring.cap_lt start (by omega)]
        exact found

end Source

/-- The public operations on one deque, with their arguments. -/
inductive Op (α C : Type) where
  | pushFront (val : Source α)
  | pushBack (val : Source α)
  | popFront
  | popBack
  | popFrontTo
  | popBackTo
  | insert (idx : Nat) (val : Source α)
  | insertSpan (idx : Nat) (src : SpanView α)
  | extend (src : SpanView α)
  | remove (idx : Nat)
  | removeRange (idx count : Nat)
  | retain (pred : Pred α C) (ctx : C)
  | set (idx : Nat) (val : Source α)
  | swapElems (i j : Nat)
  | resize (newLen : Nat)
  | truncate (newLen : Nat)
  | clear
  | reserve (newCap : Nat)
  | shrinkToFit
  | copyFromSpan (src : SpanView α)

/-- What an operation hands out: an elem, or the state a predicate leaves. -/
inductive Handed (α C : Type) where
  | nothing
  | elem (val : α)
  | ctx (ctx : C)

namespace Op

/-- What the caller has to see to. -/
def Allowed (deque : Deque) : Op α C -> Prop
  | pushFront val | pushBack val => val.Allowed deque
  | popFront | popBack | popFrontTo | popBackTo => 0 < deque.len
  | insert idx val => idx ≤ deque.len ∧ val.Allowed deque
  | insertSpan idx src => deque.elem = src.elem ∧ idx ≤ deque.len
  | extend src => deque.elem = src.elem
  | remove idx => idx < deque.len
  | removeRange idx count => idx ≤ deque.len ∧ count ≤ deque.len - idx
  | set idx val => idx < deque.len ∧ val.Allowed deque
  | swapElems i j => i < deque.len ∧ j < deque.len
  | copyFromSpan src => deque.elem = src.elem ∧ src.len = deque.len
  | retain .. | resize _ | truncate _ | clear | reserve _ | shrinkToFit => True

/-- Run it; functions without a status succeed. -/
def run (zero : α) : Op α C -> Deque -> Run (DequeMem α) (Status × Handed α C × Deque)
  | pushFront val, self => do
      let (st, after) ← Deque.pushFront self (val.operand self)
      return (st, .nothing, after)
  | pushBack val, self => do
      let (st, after) ← Deque.pushBack self (val.operand self)
      return (st, .nothing, after)
  | popFront, self => do
      return (.ok, .nothing, ← Deque.popFront self)
  | popBack, self => do
      return (.ok, .nothing, ← Deque.popBack self)
  | popFrontTo, self => do
      let (val, after) ← Deque.popFrontTo self .outside
      return (.ok, .elem val, after)
  | popBackTo, self => do
      let (val, after) ← Deque.popBackTo self .outside
      return (.ok, .elem val, after)
  | insert idx val, self => do
      let (st, after) ← Deque.insert self idx (val.operand self)
      return (st, .nothing, after)
  | insertSpan idx src, self => do
      let (st, after) ← Deque.insertSpan self idx src
      return (st, .nothing, after)
  | extend src, self => do
      let (st, after) ← Deque.extend self src
      return (st, .nothing, after)
  | remove idx, self => do
      return (.ok, .nothing, ← Deque.remove α self idx)
  | removeRange idx count, self => do
      return (.ok, .nothing, ← Deque.removeRange α self idx count)
  | retain pred ctx, self => do
      let (after, ctx) ← Deque.retain self pred ctx
      return (.ok, .ctx ctx, after)
  | set idx val, self => do
      Deque.set self idx (val.operand self)
      return (.ok, .nothing, self)
  | swapElems i j, self => do
      Deque.swapElems α self i j
      return (.ok, .nothing, self)
  | resize newLen, self => do
      let (st, after) ← Deque.resize zero self newLen
      return (st, .nothing, after)
  | truncate newLen, self => do
      return (.ok, .nothing, ← Deque.truncate self newLen)
  | clear, self => do
      return (.ok, .nothing, ← Deque.clear self)
  | reserve newCap, self => do
      let (st, after) ← Deque.reserve α self newCap
      return (st, .nothing, after)
  | shrinkToFit, self => do
      let (st, after) ← Deque.shrinkToFit α self
      return (st, .nothing, after)
  | copyFromSpan src, self => do
      Deque.copyFromSpan self src
      return (.ok, .nothing, self)

/-- The same operation on a plain list. -/
def apply (zero : α) (elems : List α) : Op α C -> List α
  | pushFront val => (val.elem? elems).toList ++ elems
  | pushBack val => elems ++ (val.elem? elems).toList
  | popFront | popFrontTo => elems.tail
  | popBack | popBackTo => elems.dropLast
  | insert idx val => inserted elems idx (val.elem? elems).toList
  | insertSpan idx src => inserted elems idx src.elems
  | extend src => elems ++ src.elems
  | remove idx => elems.eraseIdx idx
  | removeRange idx count => removed elems idx count
  | retain pred ctx => (sift pred ctx elems).1
  | set idx val => ((val.elem? elems).map (elems.set idx)).getD elems
  | swapElems i j => swapped elems i j
  | resize newLen => resized zero elems newLen
  | truncate newLen => elems.take newLen
  | clear => []
  | reserve _ | shrinkToFit => elems
  | copyFromSpan src => src.elems

/-- What the operation hands out, on a plain list. -/
def answer (elems : List α) : Op α C -> Handed α C
  | popFrontTo => (elems.head?.map .elem).getD .nothing
  | popBackTo => (elems.getLast?.map .elem).getD .nothing
  | retain pred ctx => .ctx (sift pred ctx elems).2
  | _ => .nothing

/-- The operation did what it does on lists, or was refused and did nothing. -/
def Done (heap : DequeMem α) (self : Deque) (elems : List α) (zero : α) (op : Op α C)
    (result : Status × Handed α C × Deque) (later : DequeMem α) : Prop :=
  (exists after, result = (.ok, op.answer elems, after) ∧
    Tends heap.blocks later.blocks self after (op.apply zero elems)) ∨
  (result = (.errNoMem, .nothing, self) ∧ later.blocks = heap.blocks)

theorem ends_run (op : Op α C) (holds : Holds heap.blocks self elems) (allowed : op.Allowed self) :
    Ends (op.run zero self) heap (Done heap self elems zero op) := by
  have elemsLen := holds.len
  have front : 0 < self.len -> exists first rest, elems = first :: rest := by
    intro some_
    cases elems with
    | nil => exact absurd elemsLen (Nat.ne_of_gt some_)
    | cons first rest => exact ⟨first, rest, rfl⟩
  have back : 0 < self.len -> exists rest last, elems = rest ++ [last] := by
    intro some_
    rcases List.eq_nil_or_concat elems with none_ | ⟨rest, last, split⟩
    · rw [none_] at elemsLen
      exact absurd elemsLen (Nat.ne_of_gt some_)
    · exact ⟨rest, last, split.trans List.concat_eq_append⟩
  cases op with
  | pushFront val =>
      rcases val.names holds allowed with ⟨given, value, names⟩
      simp only [run, ends_bind, ends_pure, Done, apply, answer, value]
      apply ends_pushFront holds names
      · exact fun later same => Or.inr ⟨rfl, same⟩
      · exact fun after later tends => Or.inl ⟨after, rfl, tends⟩
  | pushBack val =>
      rcases val.names holds allowed with ⟨given, value, names⟩
      simp only [run, ends_bind, ends_pure, Done, apply, answer, value]
      apply ends_pushBack holds names
      · exact fun later same => Or.inr ⟨rfl, same⟩
      · exact fun after later tends => Or.inl ⟨after, rfl, tends⟩
  | popFront =>
      rcases front allowed with ⟨first, rest, rfl⟩
      simp only [run, ends_bind, ends_pure]
      apply ends_popFront holds
      exact fun after tends => Or.inl ⟨after, rfl, tends⟩
  | popBack =>
      rcases back allowed with ⟨rest, last, rfl⟩
      simp only [run, ends_bind, ends_pure, Done, apply, answer, List.dropLast_concat]
      apply ends_popBack holds
      exact fun after tends => Or.inl ⟨after, rfl, tends⟩
  | popFrontTo =>
      rcases front allowed with ⟨first, rest, rfl⟩
      simp only [run, ends_bind, ends_pure]
      apply ends_popFrontTo holds
      exact fun after tends => Or.inl ⟨after, rfl, tends⟩
  | popBackTo =>
      rcases back allowed with ⟨rest, last, rfl⟩
      simp only [run, ends_bind, ends_pure, Done, apply, answer, List.dropLast_concat,
        List.getLast?_concat]
      apply ends_popBackTo holds
      exact fun after tends => Or.inl ⟨after, rfl, tends⟩
  | insert idx val =>
      rcases val.names holds allowed.2 with ⟨given, value, names⟩
      simp only [run, ends_bind, ends_pure, Done, apply, answer, value]
      apply ends_insert holds names allowed.1
      · exact fun later same => Or.inr ⟨rfl, same⟩
      · exact fun after later tends => Or.inl ⟨after, rfl, tends⟩
  | insertSpan idx src =>
      simp only [run, ends_bind, ends_pure]
      apply ends_insertSpan holds allowed.1 allowed.2
      · exact fun later same => Or.inr ⟨rfl, same⟩
      · exact fun after later tends => Or.inl ⟨after, rfl, tends⟩
  | extend src =>
      simp only [run, ends_bind, ends_pure]
      apply ends_extend holds allowed
      · exact fun later same => Or.inr ⟨rfl, same⟩
      · exact fun after later tends => Or.inl ⟨after, rfl, tends⟩
  | remove idx =>
      simp only [run, ends_bind, ends_pure]
      apply ends_remove holds allowed
      exact fun after later tends => Or.inl ⟨after, rfl, tends⟩
  | removeRange idx count =>
      simp only [run, ends_bind, ends_pure]
      apply ends_removeRange holds allowed.1 allowed.2
      exact fun after later tends => Or.inl ⟨after, rfl, tends⟩
  | retain pred ctx =>
      simp only [run, ends_bind, ends_pure]
      apply ends_retain holds
      exact fun after later tends => Or.inl ⟨after, rfl, tends⟩
  | set idx val =>
      rcases val.names holds allowed.2 with ⟨given, value, names⟩
      simp only [run, ends_bind, ends_pure, Done, apply, answer, value]
      apply ends_set holds names allowed.1
      exact fun later tends => Or.inl ⟨self, rfl, tends⟩
  | swapElems i j =>
      simp only [run, ends_bind, ends_pure]
      apply ends_swapElems holds allowed.1 allowed.2
      exact fun later tends => Or.inl ⟨self, rfl, tends⟩
  | resize newLen =>
      simp only [run, ends_bind, ends_pure]
      apply ends_resize holds
      · exact fun later same => Or.inr ⟨rfl, same⟩
      · exact fun after later tends => Or.inl ⟨after, rfl, tends⟩
  | truncate newLen =>
      simp only [run, ends_bind, ends_pure]
      apply ends_truncate holds
      exact fun after tends => Or.inl ⟨after, rfl, tends⟩
  | clear =>
      simp only [run, ends_bind, ends_pure]
      apply ends_clear holds
      exact fun after tends => Or.inl ⟨after, rfl, tends⟩
  | reserve newCap =>
      simp only [run, ends_bind, ends_pure]
      apply ends_reserve holds
      · exact fun later same => Or.inr ⟨rfl, same⟩
      · exact fun after later tends _ _ => Or.inl ⟨after, rfl, tends⟩
  | shrinkToFit =>
      simp only [run, ends_bind, ends_pure]
      apply ends_shrinkToFit holds
      · exact fun later same => Or.inr ⟨rfl, same⟩
      · exact fun after later tends => Or.inl ⟨after, rfl, tends⟩
  | copyFromSpan src =>
      simp only [run, ends_bind, ends_pure]
      apply ends_copyFromSpan holds allowed.1 allowed.2
      exact fun later tends => Or.inl ⟨self, rfl, tends⟩

end Op

end Deque
end TerseDsa
