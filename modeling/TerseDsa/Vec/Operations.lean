import TerseDsa.Vec.Lifetime

namespace TerseDsa

open Foundation Run

/-!
# The operations on one vec

`Op` is any public operation on one vec, with its arguments.  Beside each
stands what it is on a plain list: `Op.apply` says what becomes of the elems,
`Op.answer` what is handed out.
-/

namespace Vec

variable {α C : Type} {heap : VecMem α} {self : Vec} {elems : List α} {zero : α}

/-- The elem behind an operand. -/
def elem? (elems : List α) : Operand α -> Option α
  | .outside val => some val
  | .slot slot => elems[slot]?

/-- An operand is outside the vec, or one of its elems. -/
def Among (vec : Vec) : Operand α -> Prop
  | .outside _ => True
  | .slot slot => slot < vec.len

theorem Holds.names {named : Operand α} (holds : Holds heap.blocks self elems) (among : Among self named) :
    exists val, elem? elems named = some val ∧ Names elems val named := by
  cases named with
  | outside val => exact ⟨val, rfl, rfl⟩
  | slot slot =>
      have inside : slot < elems.length := holds.len ▸ among
      exact ⟨_, List.getElem?_eq_getElem inside, List.getElem?_eq_getElem inside⟩

/-- The public operations on one vec, with their arguments; `addElem` is `add_one` and the
elem that its caller writes to the slot. -/
inductive Op (α C : Type) where
  | push (val : Operand α)
  | pushAssumeCap (val : Operand α)
  | addElem (val : α)
  | pop
  | popTo (out : Target)
  | insert (idx : Nat) (val : Operand α)
  | insertSpan (idx : Nat) (src : SpanView α)
  | extend (src : SpanView α)
  | remove (idx : Nat)
  | removeRange (idx count : Nat)
  | swapRemove (idx : Nat)
  | set (idx : Nat) (val : Operand α)
  | swapElems (i j : Nat)
  | resize (newLen : Nat)
  | truncate (newLen : Nat)
  | clear
  | retain (pred : Pred α C) (ctx : C)
  | reserve (newCap : Nat)
  | shrinkToFit

/-- What an operation hands out: an elem, or the state a predicate leaves. -/
inductive Handed (α C : Type) where
  | nothing
  | elem (val : α)
  | ctx (ctx : C)

namespace Op

/-- What the caller has to see to. -/
def Allowed (vec : Vec) : Op α C -> Prop
  | push val => Among vec val
  | pushAssumeCap val => vec.len < vec.cap ∧ Among vec val
  | pop => 0 < vec.len
  | popTo out => 0 < vec.len ∧ Reaches vec out
  | insert idx val => idx ≤ vec.len ∧ Among vec val
  | insertSpan idx src => vec.elem = src.elem ∧ idx ≤ vec.len
  | extend src => vec.elem = src.elem
  | remove idx | swapRemove idx => idx < vec.len
  | removeRange idx count => idx ≤ vec.len ∧ count ≤ vec.len - idx
  | set idx val => idx < vec.len ∧ Among vec val
  | swapElems i j => i < vec.len ∧ j < vec.len
  | addElem _ | resize _ | truncate _ | clear | retain .. | reserve _ | shrinkToFit => True

/-- Run it; functions without a status succeed. -/
def run (zero : α) : Op α C -> Vec -> Run (VecMem α) (Status × Handed α C × Vec)
  | push val, self => do
      let (st, after) ← Vec.push self val
      return (st, .nothing, after)
  | pushAssumeCap val, self => do
      return (.ok, .nothing, ← Vec.pushAssumeCap self val)
  | addElem val, self => do
      let (st, after) ← Vec.addElem self val
      return (st, .nothing, after)
  | pop, self => do
      return (.ok, .nothing, ← Vec.pop self)
  | popTo out, self => do
      let (val, after) ← Vec.popTo self out
      return (.ok, .elem val, after)
  | insert idx val, self => do
      let (st, after) ← Vec.insert self idx val
      return (st, .nothing, after)
  | insertSpan idx src, self => do
      let (st, after) ← Vec.insertSpan self idx src
      return (st, .nothing, after)
  | extend src, self => do
      let (st, after) ← Vec.extend self src
      return (st, .nothing, after)
  | remove idx, self => do
      return (.ok, .nothing, ← Vec.remove α self idx)
  | removeRange idx count, self => do
      return (.ok, .nothing, ← Vec.removeRange α self idx count)
  | swapRemove idx, self => do
      return (.ok, .nothing, ← Vec.swapRemove α self idx)
  | set idx val, self => do
      Vec.set self idx val
      return (.ok, .nothing, self)
  | swapElems i j, self => do
      Vec.swapElems α self i j
      return (.ok, .nothing, self)
  | resize newLen, self => do
      let (st, after) ← Vec.resize zero self newLen
      return (st, .nothing, after)
  | truncate newLen, self => do
      return (.ok, .nothing, ← Vec.truncate self newLen)
  | clear, self => do
      return (.ok, .nothing, ← Vec.clear self)
  | retain pred ctx, self => do
      let (after, ctx) ← Vec.retain self pred ctx
      return (.ok, .ctx ctx, after)
  | reserve newCap, self => do
      let (st, after) ← Vec.reserve α self newCap
      return (st, .nothing, after)
  | shrinkToFit, self => do
      let (st, after) ← Vec.shrinkToFit α self
      return (st, .nothing, after)

/-- The same operation on a plain list. -/
def apply (zero : α) (elems : List α) : Op α C -> List α
  | push val | pushAssumeCap val => elems ++ (elem? elems val).toList
  | addElem val => elems ++ [val]
  | pop => elems.dropLast
  | popTo out => ((elems.getLast?.map fun last => putTo elems last out).getD elems).dropLast
  | insert idx val => elems.take idx ++ (elem? elems val).toList ++ elems.drop idx
  | insertSpan idx src => elems.take idx ++ src.elems ++ elems.drop idx
  | extend src => elems ++ src.elems
  | remove idx => elems.eraseIdx idx
  | removeRange idx count => elems.take idx ++ elems.drop (idx + count)
  | swapRemove idx => ((elems.getLast?.map (elems.set idx)).getD elems).dropLast
  | set idx val => ((elem? elems val).map (elems.set idx)).getD elems
  | swapElems i j => Span.exchanged elems i j
  | resize newLen => elems.take newLen ++ List.replicate (newLen - elems.length) zero
  | truncate newLen => elems.take newLen
  | clear => []
  | retain pred ctx => (sift pred ctx elems).1
  | reserve _ | shrinkToFit => elems

/-- What the operation hands out, on a plain list. -/
def answer (elems : List α) : Op α C -> Handed α C
  | popTo _ => (elems.getLast?.map .elem).getD .nothing
  | retain pred ctx => .ctx (sift pred ctx elems).2
  | _ => .nothing

/-- The operation did what it does on lists, or was refused and did nothing. -/
def Done (heap : VecMem α) (self : Vec) (elems : List α) (zero : α) (op : Op α C)
    (result : Status × Handed α C × Vec) (later : VecMem α) : Prop :=
  (exists after, result = (.ok, op.answer elems, after) ∧
    Tends heap.blocks later.blocks self after (op.apply zero elems)) ∨
  (result = (.errNoMem, .nothing, self) ∧ later.blocks = heap.blocks)

theorem ends_run (op : Op α C) (holds : Holds heap.blocks self elems) (allowed : op.Allowed self) :
    Ends (op.run zero self) heap (Done heap self elems zero op) := by
  have back : 0 < self.len -> exists rest last, elems = rest ++ [last] := by
    intro some_
    rcases List.eq_nil_or_concat elems with none_ | ⟨rest, last, split⟩
    · have len := holds.len
      rw [none_, List.length_nil] at len
      exact absurd len (Nat.ne_of_gt some_)
    · exact ⟨rest, last, split.trans List.concat_eq_append⟩
  cases op with
  | push val =>
      rcases holds.names allowed with ⟨given, value, names⟩
      simp only [run, ends_bind, ends_pure, Done, apply, answer, value]
      apply ends_push holds names
      · exact fun later same => Or.inr ⟨rfl, same⟩
      · exact fun after later tends => Or.inl ⟨after, rfl, tends⟩
  | pushAssumeCap val =>
      rcases holds.names allowed.2 with ⟨given, value, names⟩
      simp only [run, ends_bind, ends_pure, Done, apply, answer, value]
      apply ends_pushAssumeCap holds names allowed.1
      exact fun after later tends => Or.inl ⟨after, rfl, tends⟩
  | addElem val =>
      simp only [run, ends_bind, ends_pure]
      apply ends_addElem holds
      · exact fun later same => Or.inr ⟨rfl, same⟩
      · exact fun after later tends => Or.inl ⟨after, rfl, tends⟩
  | pop =>
      rcases back allowed with ⟨rest, last, rfl⟩
      simp only [run, ends_bind, ends_pure, Done, apply, answer, List.dropLast_concat]
      apply ends_pop holds
      exact fun after tends => Or.inl ⟨after, rfl, tends⟩
  | popTo out =>
      rcases back allowed.1 with ⟨rest, last, rfl⟩
      simp only [run, ends_bind, ends_pure, Done, apply, answer, List.getLast?_concat]
      apply ends_popTo holds allowed.2
      exact fun after later tends => Or.inl ⟨after, rfl, tends⟩
  | insert idx val =>
      rcases holds.names allowed.2 with ⟨given, value, names⟩
      simp only [run, ends_bind, ends_pure, Done, apply, answer, value]
      apply ends_insert holds names allowed.1
      · exact fun later same => Or.inr ⟨rfl, same⟩
      · exact fun after later tends => Or.inl ⟨after, rfl, tends⟩
  | insertSpan idx src =>
      simp only [run, ends_bind, ends_pure]
      apply ends_insertSpan holds allowed.1 allowed.2
      · exact fun later same => Or.inr ⟨rfl, same⟩
      · exact fun after later tends => Or.inl ⟨after, rfl, tends⟩
  | extend src =>
      simp only [run, ends_bind, ends_pure]
      apply ends_extend holds allowed
      · exact fun later same => Or.inr ⟨rfl, same⟩
      · exact fun after later tends => Or.inl ⟨after, rfl, tends⟩
  | remove idx =>
      simp only [run, ends_bind, ends_pure]
      apply ends_remove holds allowed
      exact fun after later tends => Or.inl ⟨after, rfl, tends⟩
  | removeRange idx count =>
      simp only [run, ends_bind, ends_pure]
      apply ends_removeRange holds allowed.1 allowed.2
      exact fun after later tends => Or.inl ⟨after, rfl, tends⟩
  | swapRemove idx =>
      rcases back (Nat.lt_of_le_of_lt (Nat.zero_le idx) allowed) with ⟨rest, last, rfl⟩
      simp only [run, ends_bind, ends_pure, Done, apply, answer, List.getLast?_concat]
      apply ends_swapRemove holds allowed
      exact fun after later tends => Or.inl ⟨after, rfl, tends⟩
  | set idx val =>
      rcases holds.names allowed.2 with ⟨given, value, names⟩
      simp only [run, ends_bind, ends_pure, Done, apply, answer, value]
      apply ends_set holds names allowed.1
      exact fun later tends => Or.inl ⟨self, rfl, tends⟩
  | swapElems i j =>
      simp only [run, ends_bind, ends_pure]
      apply ends_swapElems holds allowed.1 allowed.2
      exact fun later tends => Or.inl ⟨self, rfl, tends⟩
  | resize newLen =>
      simp only [run, ends_bind, ends_pure]
      apply ends_resize holds
      · exact fun later same => Or.inr ⟨rfl, same⟩
      · exact fun after later tends => Or.inl ⟨after, rfl, tends⟩
  | truncate newLen =>
      simp only [run, ends_bind, ends_pure]
      apply ends_truncate holds
      exact fun after tends => Or.inl ⟨after, rfl, tends⟩
  | clear =>
      simp only [run, ends_bind, ends_pure]
      apply ends_clear holds
      exact fun after tends => Or.inl ⟨after, rfl, tends⟩
  | retain pred ctx =>
      simp only [run, ends_bind, ends_pure]
      apply ends_retain holds
      exact fun after later tends => Or.inl ⟨after, rfl, tends⟩
  | reserve newCap =>
      simp only [run, ends_bind, ends_pure]
      apply ends_reserve holds
      · exact fun later same => Or.inr ⟨rfl, same⟩
      · exact fun after later tends _ _ => Or.inl ⟨after, rfl, tends⟩
  | shrinkToFit =>
      simp only [run, ends_bind, ends_pure]
      apply ends_shrinkToFit holds
      · exact fun later same => Or.inr ⟨rfl, same⟩
      · exact fun after later tends => Or.inl ⟨after, rfl, tends⟩

end Op

end Vec
end TerseDsa
