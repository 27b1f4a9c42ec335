import TerseDsa.BitSet.Operations
import TerseDsa.Foundation.Assigning

namespace TerseDsa

open Foundation Run
open Function (update update_eq_self)

/-!
# Bitsets as objects

Bitsets are numbered variables over one memory, so that an operation may be
given one bitset twice and write another through `out`.  `Follows` runs a
program of calls and, beside it, the same program on subsets.
-/

/-- The bitset variables of a program, and its memory. -/
abbrev BitSetObjects := Objects BitSet AlTag (List Word)

namespace BitSetObjects

open Objects BitSet

/-- The checks an operation on two sets of one universe starts with. -/
def assertPair (self other : Nat) : Run BitSetObjects (BitSet × BitSet) := do
  let a ← load self
  let b ← load other
  within (assertBitSet a)
  within (assertBitSet b)
  within (expectSame a b)
  return (a, b)

/-- `tda_bitset_copy_assign`. -/
def copyAssign (self other : Nat) : Run BitSetObjects Status := do
  let a ← load self
  let b ← load other
  within (assertBitSet a)
  within (assertBitSet b)
  if self = other then
    return .ok
  let (st, after) ← within (copyOver a b)
  store self after
  return st

/-- `tda_bitset_move_assign`. -/
def moveAssign (self other : Nat) : Run BitSetObjects Unit := do
  let a ← load self
  let b ← load other
  within (assertBitSet b)
  if a.al.isSome then
    within (assertBitSet a)
  if self = other then
    return ()
  store self (← within (deinit a))
  store self b
  let empty : BitSet := ⟨none, 0, 0, b.al⟩
  store other empty
  within (assertBitSet b)
  within (assertBitSet empty)

/-- `tda_bitset_swap`. -/
def swap (self other : Nat) : Run BitSetObjects Unit := do
  let a ← load self
  let b ← load other
  within (assertBitSet a)
  within (assertBitSet b)
  if self = other then
    return ()
  store self b
  store other a
  within (assertBitSet b)
  within (assertBitSet a)

/-- `tda_bitset_union`, `_intersection`, `_difference` and `_symmetric_difference`. -/
def combine (combination : Combination) (self other : Nat) : Run BitSetObjects Unit := do
  let (a, b) ← assertPair self other
  within (BitSet.combine a b combination.edit)
  within (assertBitSet a)

/-- `tda_bitset_eq`. -/
def eq (a b : Nat) : Run BitSetObjects Bool := do
  let first ← load a
  let second ← load b
  within (assertBitSet first)
  within (assertBitSet second)
  if a = b then
    return true
  within (eqImpl first second)

/-- `tda_bitset_is_subset`. -/
def isSubset (self other : Nat) : Run BitSetObjects Bool := do
  let (a, b) ← assertPair self other
  within (isSubsetImpl a b)

/-- `tda_bitset_intersects`. -/
def intersects (self other : Nat) : Run BitSetObjects Bool := do
  let (a, b) ← assertPair self other
  within (intersectsImpl a b)

/-- How bitsets are checked, released and made anew; two bitsets of any
universes may be assigned to each other. -/
def handling : Handling BitSet AlTag (List Word) where
  inert := BitSet.inert
  real set := set.al.isSome
  alike _ _ := true
  check := assertBitSet
  release := deinit
  renew set := return ⟨none, 0, 0, set.al⟩

/-- Write a constructor's object to `out` if there is one. -/
def fill (out : Nat) (result : Status × Option BitSet) : Run BitSetObjects Status := do
  match result with
  | (st, some made) =>
      store out made
      return st
  | (st, none) => return st

end BitSetObjects

namespace BitSet

open Objects BitSetObjects

variable {s later : BitSetObjects} {abs : Nat -> Subset}

/-! ## Calls -/

/-- The constructors that write to `out` only when they succeed. -/
inductive Maker where
  | initNbits (nbits : Nat) (al : Al)
  | fromSpan (nbits : Nat) (view : SpanView Nat) (al : Al)
  | copy (self : Nat)
  | copyWith (self : Nat) (al : Al)

namespace Maker

/-- Build the object. -/
def make : Maker -> Run BitSetObjects (Status × Option BitSet)
  | initNbits nbits al => within (BitSet.initNbits nbits al)
  | fromSpan nbits view al => within (BitSet.fromSpan nbits view al)
  | copy self => do within (BitSet.copy (← load self))
  | copyWith self al => do within (BitSet.copyWith (← load self) al)

/-- What the caller has to see to; a `size_t` is below `sizeRange`. -/
def Allowed (s : BitSetObjects) : Maker -> Prop
  | initNbits nbits al => nbits < sizeRange ∧ al.isSome = true
  | fromSpan nbits view al => nbits < sizeRange ∧ al.isSome = true ∧ view.elem = ⟨8, 8⟩ ∧
      forall idx, idx ∈ view.elems -> idx < nbits
  | copy self => (s.objs self).al.isSome = true
  | copyWith self al => (s.objs self).al.isSome = true ∧ al.isSome = true

/-- The subset of the object. -/
def subset (abs : Nat -> Subset) : Maker -> Subset
  | initNbits nbits _ => Subset.bare nbits
  | fromSpan nbits view _ => (Subset.bare nbits).edit fun _ => view.elems.toFinset
  | copy self | copyWith self _ => abs self

end Maker

/-- The operations that change one bitset. -/
inductive Task where
  | set (idx : Nat)
  | reset (idx : Nat)
  | flip (idx : Nat)
  | setTo (idx : Nat) (val : Bool)
  | setAll
  | resetAll
  | flipAll

namespace Task

def run (self : BitSet) : Task -> Run BitSetMem Unit
  | set idx => BitSet.set self idx
  | reset idx => BitSet.reset self idx
  | flip idx => BitSet.flip self idx
  | setTo idx val => BitSet.setTo self idx val
  | setAll => BitSet.setAll self
  | resetAll => BitSet.resetAll self
  | flipAll => BitSet.flipAll self

/-- An index is one of the universe. -/
def Allowed (self : BitSet) : Task -> Prop
  | set idx | reset idx | flip idx | setTo idx _ => idx < self.nbits
  | setAll | resetAll | flipAll => True

/-- What the operation makes of the members. -/
def change (nbits : Nat) : Task -> Finset Nat -> Finset Nat
  | set idx => insert idx
  | reset idx => fun members => members.erase idx
  | flip idx => fun members => symmDiff members {idx}
  | setTo idx val => settled idx val
  | setAll => fun _ => Finset.range nbits
  | resetAll => fun _ => ∅
  | flipAll => fun members => Finset.range nbits \ members

/-- Each operation leaves the bitset standing for the changed members. -/
theorem ends_run {heap : BitSetMem} {self : BitSet} {subset : Subset} (task : Task)
    (holds : Holds heap.blocks self subset) (allowed : task.Allowed self) {post : Unit -> BitSetMem -> Prop}
    (done : forall later : BitSetMem,
      Tends heap.blocks later.blocks self self (subset.edit (task.change subset.nbits)) -> post () later) :
    Ends (task.run self) heap post := by
  cases task with
  | set idx => exact ends_set holds allowed done
  | reset idx => exact ends_reset holds allowed done
  | flip idx => exact ends_flip holds allowed done
  | setTo idx val => exact ends_setTo holds allowed done
  | setAll => exact ends_setAll holds done
  | resetAll => exact ends_resetAll holds done
  | flipAll => exact ends_flipAll holds done

end Task

/-- A call of a public operation of bitsets, with its arguments. -/
inductive Call where
  | make (out : Nat) (maker : Maker)
  | deinit (self : Nat)
  | copyAssign (self other : Nat)
  | moveAssign (self other : Nat)
  | swap (self other : Nat)
  | task (self : Nat) (work : Task)
  | combine (combination : Combination) (self other : Nat)

namespace Call

/-- Make the call; functions without a status succeed. -/
def run : Call -> Run BitSetObjects Status
  | make out maker => do fill out (← maker.make)
  | deinit self => do
      store self (← within (BitSet.deinit (← load self)))
      return .ok
  | copyAssign self other => BitSetObjects.copyAssign self other
  | moveAssign self other => do
      BitSetObjects.moveAssign self other
      return .ok
  | swap self other => do
      BitSetObjects.swap self other
      return .ok
  | task self work => do
      within (work.run (← load self))
      return .ok
  | combine combination self other => do
      BitSetObjects.combine combination self other
      return .ok

/-- What the caller has to see to: `self` and `other` are initialised, an index
is one of the universe, two sets have one universe, and `out` is a variable
that owns no block, since it is overwritten. -/
def Allowed (s : BitSetObjects) : Call -> Prop
  | make out maker => (s.objs out).words = none ∧ maker.Allowed s
  | deinit _ => True
  | copyAssign self other | swap self other =>
      (s.objs self).al.isSome = true ∧ (s.objs other).al.isSome = true
  | moveAssign _ other => (s.objs other).al.isSome = true
  | task self work => (s.objs self).al.isSome = true ∧ work.Allowed (s.objs self)
  | combine _ self other => (s.objs self).al.isSome = true ∧ (s.objs other).al.isSome = true ∧
      (s.objs self).nbits = (s.objs other).nbits

/-- The same call on subsets. -/
def apply (abs : Nat -> Subset) : Call -> Nat -> Subset
  | make out maker => update abs out (maker.subset abs)
  | deinit self => update abs self (Subset.bare 0)
  | copyAssign self other => update abs self (abs other)
  | moveAssign self other =>
      if self = other then abs
      else update (update abs self (abs other)) other (Subset.bare 0)
  | swap self other => fun var => abs (Equiv.swap self other var)
  | task self work => update abs self ((abs self).edit (work.change (abs self).nbits))
  | combine combination self other =>
      update abs self ((abs self).edit fun members => combination.on members (abs other).members)

end Call

/-- A run of a program, and of the same program on subsets: both start with
nothing, over an arbitrary script of the allocator, and a call that is refused
is none on the subsets. -/
inductive Follows : BitSetObjects -> (Nat -> Subset) -> Prop where
  | start (answers : Nat -> Option Addr) :
      Follows ⟨fun _ => inert, ⟨fun _ => none, answers, 0⟩⟩ fun _ => Subset.bare 0
  | call {s later : BitSetObjects} {abs : Nat -> Subset} {st : Status} (before : Follows s abs) (call : Call)
      (allowed : call.Allowed s) (ran : call.run s = some (st, later)) :
      Follows later (if st = .ok then call.apply abs else abs)

/-! ## The invariant -/

/-- A bitset that stands for a subset, or an inert one. -/
def Kept (blocks : Blocks AlTag (List Word)) (set : BitSet) (subset : Subset) : Prop :=
  (set = inert ∧ subset = Subset.bare 0) ∨ Holds blocks set subset

/-- Bitsets own their block. -/
@[reducible] def kind : Kind BitSet Subset AlTag (List Word) where
  owned set _ := set.words.toList
  Holds := Kept
  live := by
    intro blocks set subset addr kept mine
    rcases kept with ⟨rfl, _⟩ | ⟨words, held⟩
    · exact absurd mine List.not_mem_nil
    · exact held.rep.block.live mine
  congr := by
    intro blocks other set subset kept agree
    rcases kept with idle | ⟨words, held⟩
    · exact Or.inl idle
    · have inHeap : Rep (⟨blocks, fun _ => none, 0⟩ : BitSetMem).blocks set words := held.rep
      exact Or.inr ⟨words, inHeap.congr agree, held.nbits, held.bits⟩

theorem Kept.holds {blocks : Blocks AlTag (List Word)} {set : BitSet} {subset : Subset}
    (kept : Kept blocks set subset) (real : set.al.isSome = true) : Holds blocks set subset := by
  rcases kept with ⟨rfl, _⟩ | holds
  · cases real
  · exact holds

/-! ### Bitsets are assigned as any owning object is -/

theorem copyAssign_eq (self other : Nat) :
    BitSetObjects.copyAssign self other = handling.copyAssign copyOver .ok self other := by
  unfold Handling.copyAssign Handling.checkPair
  simp only [bind_assoc, pure_bind]
  rfl

theorem moveAssign_eq (self other : Nat) : BitSetObjects.moveAssign self other = handling.moveAssign self other := rfl

theorem swap_eq (self other : Nat) : BitSetObjects.swap self other = handling.swap self other := by
  unfold Handling.swap Handling.checkPair
  simp only [bind_assoc, pure_bind]
  rfl

/-- The checks pass on bitsets that are held, and releasing one gives its block back. -/
theorem sound : handling.Sound kind (Subset.bare 0) where
  idle := ⟨fun _ => Or.inl ⟨rfl, rfl⟩, rfl⟩
  idle_of := by
    intro blocks set subset kept unreal
    rcases kept with idle | ⟨words, held⟩
    · exact idle
    · exact absurd held.rep.real (ne_true_of_eq_false unreal)
  check kept real post := (kept.holds real).ends_assertBitSet
  release_idle _ _ := ends_deinit_inert
  release kept real := ends_deinit (kept.holds real) fun _ gone => ⟨rfl, gone⟩
  renew := by
    intro blocks set subset kept real
    exact ⟨⟨none, 0, 0, set.al⟩, ⟨fun _ => Or.inr (Holds.of_bare real), rfl⟩, real, fun heap post => ends_pure _ heap post⟩

/-- The subsets are those the bitsets stand for, and the live blocks are theirs or the others'. -/
abbrev Invariant (others : Blocks AlTag (List Word)) (s : BitSetObjects) (abs : Nat -> Subset) : Prop :=
  Objects.Among kind others s abs

namespace Invariant

variable {others : Blocks AlTag (List Word)} {obj out self other : Nat} {subset : Subset} {mem : BitSetMem}

theorem holds (invariant : Invariant others s abs) (real : (s.objs obj).al.isSome = true) :
    Holds s.mem.blocks (s.objs obj) (abs obj) :=
  (invariant.held obj).holds real

theorem tended {after : BitSet} (invariant : Invariant others s abs)
    (tends : Tends s.mem.blocks mem.blocks (s.objs obj) after subset) :
    Invariant others ⟨update s.objs obj after, mem⟩ (update abs obj subset) :=
  Objects.Among.act invariant tends.evolves (Or.inr tends.holds)

theorem tended_here (invariant : Invariant others s abs)
    (tends : Tends s.mem.blocks mem.blocks (s.objs obj) (s.objs obj) subset) :
    Invariant others { s with mem := mem } (update abs obj subset) := by
  have now := invariant.tended tends
  rwa [update_eq_self] at now

/-- A variable that owned nothing is overwritten by a bitset that was built. -/
theorem born {set : BitSet} {al : Al} (invariant : Invariant others s abs) (bare : (s.objs out).words = none)
    (born : Born s.mem.blocks mem.blocks set subset al) :
    Invariant others ⟨update s.objs out set, mem⟩ (update abs out subset) := by
  apply Objects.Among.act invariant _ (Or.inr born.holds)
  change Evolves _ _ (s.objs out).words.toList _
  rw [bare]
  exact born.evolves

theorem beside (invariant : Invariant others s abs) (self other : Nat) : Beside (s.objs self) (s.objs other) := by
  by_cases same : self = other
  · exact Or.inl (congrArg s.objs same)
  · exact Or.inr (Objects.Among.apart invariant (Ne.symm same))

theorem ends_assertPair (invariant : Invariant others s abs) (realSelf : (s.objs self).al.isSome = true)
    (realOther : (s.objs other).al.isSome = true) (same : (s.objs self).nbits = (s.objs other).nbits)
    {post : BitSet × BitSet -> BitSetObjects -> Prop} :
    Ends (assertPair self other) s post <-> post (s.objs self, s.objs other) s := by
  simp only [assertPair, ends_bind, ends_load, ends_within, (invariant.holds realSelf).ends_assertBitSet,
    (invariant.holds realOther).ends_assertBitSet, expectSame, ends_require, same, true_and, ends_pure]

/-! ### The calls -/

/-- A constructor builds a bitset of the subset it should have, or leaves no trace. -/
theorem made (invariant : Invariant others s abs) (maker : Maker) (allowed : maker.Allowed s) :
    Ends maker.make s (fun result later => later.objs = s.objs ∧
      ((exists set, result = (.ok, some set) ∧
          exists al, Born s.mem.blocks later.mem.blocks set (maker.subset abs) al) ∨
        (result = (.errNoMem, none) ∧ later.mem.blocks = s.mem.blocks))) := by
  cases maker with
  | initNbits nbits al =>
      exact ends_within_built fun refused done => ends_initNbits allowed.2 allowed.1 refused
        fun set later born => done set later ⟨al, born⟩
  | fromSpan nbits view al =>
      exact ends_within_built fun refused done => ends_fromSpan allowed.2.1 allowed.1 allowed.2.2.1 allowed.2.2.2 refused
        fun set later born => done set later ⟨al, born⟩
  | copy self =>
      have holds := invariant.holds allowed
      simp only [Maker.make, ends_bind, ends_load]
      apply ends_within_built
      intro post refused done
      simp only [copy, ends_bind, holds.ends_assertBitSet]
      exact ends_copyWith holds allowed refused fun set later born => done set later ⟨_, born⟩
  | copyWith self al =>
      simp only [Maker.make, ends_bind, ends_load]
      exact ends_within_built fun refused done => ends_copyWith (invariant.holds allowed.1) allowed.2 refused
        fun set later born => done set later ⟨al, born⟩

theorem copyAssigned (invariant : Invariant others s abs) (realSelf : (s.objs self).al.isSome = true)
    (realOther : (s.objs other).al.isSome = true) :
    Ends (BitSetObjects.copyAssign self other) s (fun st later =>
      (st = .ok ∧ Invariant others later (update abs self (abs other))) ∨
        (st = .errNoMem ∧ later.objs = s.objs ∧ later.mem.blocks = s.mem.blocks)) := by
  rw [copyAssign_eq]
  apply Objects.Among.copied invariant sound realSelf realOther rfl
  intro different
  apply ends_copyOver (invariant.holds realSelf) (invariant.holds realOther)
    (Objects.Among.apart invariant (Ne.symm different))
  · exact fun later unchanged => Or.inr ⟨rfl, unchanged⟩
  · exact fun after later tends => Or.inl ⟨rfl, Or.inr tends.holds, tends.evolves⟩

/-- Every call ends, whatever the allocator answers, and leaves the bitsets
standing for what it makes of the subsets; a refused call leaves everything. -/
theorem run (invariant : Invariant others s abs) (call : Call) (allowed : call.Allowed s) :
    Ends call.run s (fun st later =>
      (st = .ok ∧ Invariant others later (call.apply abs)) ∨
        (st = .errNoMem ∧ later.objs = s.objs ∧ later.mem.blocks = s.mem.blocks)) := by
  cases call with
  | make out maker =>
      simp only [Call.run, ends_bind]
      apply (invariant.made maker allowed.2).mono
      rintro result mid ⟨sameObjs, ⟨set, rfl, al, born⟩ | ⟨rfl, same⟩⟩
      · simp only [fill, ends_bind, ends_store, ends_pure, sameObjs]
        exact Or.inl ⟨trivial, invariant.born allowed.1 born⟩
      · simp only [fill, ends_pure]
        exact Or.inr ⟨trivial, sameObjs, same⟩
  | deinit self =>
      simp only [Call.run, ends_bind, ends_load, ends_within]
      refine (Objects.Among.released invariant sound self).mono ?_
      rintro after later ⟨rfl, cleared⟩
      simp only [ends_store, ends_pure]
      exact Or.inl ⟨trivial, cleared⟩
  | copyAssign self other => exact invariant.copyAssigned allowed.1 allowed.2
  | moveAssign self other =>
      simp only [Call.run, ends_bind, ends_pure, moveAssign_eq]
      apply (Objects.Among.ends_moveAssign invariant sound allowed fun _ => rfl).mono
      exact fun _ later now => Or.inl ⟨trivial, now⟩
  | swap self other =>
      simp only [Call.run, ends_bind, ends_pure, swap_eq]
      apply (Objects.Among.ends_swap invariant sound allowed.1 allowed.2 rfl).mono
      exact fun _ later now => Or.inl ⟨trivial, now⟩
  | task self work =>
      simp only [Call.run, ends_bind, ends_load, ends_within, ends_pure]
      apply work.ends_run (invariant.holds allowed.1) allowed.2
      exact fun later tends => Or.inl ⟨trivial, invariant.tended_here tends⟩
  | combine combination self other =>
      simp only [Call.run, BitSetObjects.combine, ends_bind,
        invariant.ends_assertPair allowed.1 allowed.2.1 allowed.2.2, ends_within, ends_pure]
      apply ends_combine_beside (invariant.holds allowed.1) (invariant.holds allowed.2.1) allowed.2.2
        (invariant.beside self other)
      intro later tends
      rw [tends.holds.ends_assertBitSet]
      exact Or.inl ⟨trivial, invariant.tended_here tends⟩

end Invariant

/-- In every run, the bitsets stand for the subsets. -/
theorem Follows.invariant (follows : Follows s abs) : Invariant (fun _ => none) s abs := by
  induction follows with
  | start answers => exact Objects.Among.start inert (Or.inl ⟨rfl, rfl⟩) rfl answers
  | call before call allowed ran ih =>
      rcases (ih.run call allowed).of_eq ran with ⟨rfl, now⟩ | ⟨rfl, sameObjs, same⟩
      · exact now
      · exact ih.unchanged sameObjs same

end BitSet

/-!
## Bitsets refine subsets

Whatever program of bitset operations is run, each bitset stands for the
subset that the same program computes on subsets, and every question about it
is answered as the subset answers it.
-/

namespace BitSet

open Objects

variable {s : BitSetObjects} {abs : Nat -> Subset} {self other : Nat}

/-- How a bitset stands for a subset: its words are as many as the universe
needs, each bit of them is set exactly for a member, so that those at or above
`nbits` are not, and the queries tell of the members. -/
structure Represents (heap : BitSetMem) (set : BitSet) (subset : Subset) : Prop where
  nbits : set.nbits = subset.nbits
  nwords : set.nwords = (subset.nbits + 63) / 64
  bits : forall idx, idx / 64 < set.nwords -> Ends (readWord set (idx / 64)) heap fun word later =>
    later = heap ∧ word.getLsbD (idx % 64) = decide (idx ∈ subset.members)
  tail : forall idx, idx / 64 < set.nwords -> set.nbits ≤ idx ->
    Ends (readWord set (idx / 64)) heap fun word later => later = heap ∧ word.getLsbD (idx % 64) = false
  test : forall idx, idx < set.nbits -> Ends (test set idx) heap fun answer later =>
    later = heap ∧ (answer = true <-> idx ∈ subset.members)
  count : Ends (count set) heap fun number later => later = heap ∧ number = subset.members.card
  any : Ends (any set) heap fun found later =>
    later = heap ∧ (found = true <-> subset.members.Nonempty)
  all : Ends (all set) heap fun full later =>
    later = heap ∧ (full = true <-> subset.members = Finset.range subset.nbits)
  none_ : Ends (none_ set) heap fun empty later => later = heap ∧ (empty = true <-> subset.members = ∅)

theorem Holds.represents {heap : BitSetMem} {set : BitSet} {subset : Subset}
    (holds : Holds heap.blocks set subset) : Represents heap set subset := by
  have ⟨words, held⟩ := holds
  have bits : forall idx, idx / 64 < set.nwords -> Ends (readWord set (idx / 64)) heap fun word later =>
      later = heap ∧ word.getLsbD (idx % 64) = decide (idx ∈ subset.members) := by
    intro idx inside
    have there : idx / 64 < words.length := held.rep.length.symm ▸ inside
    rw [ends_readWord held.rep there]
    exact ⟨rfl, by rw [← held.bit, bitAt_of_lt there]⟩
  constructor
  · exact held.nbits
  · rw [held.rep.count, wordsFor_eq_ceil, held.nbits]
  · exact bits
  · intro idx inside above
    refine (bits idx inside).mono ?_
    rintro word later ⟨same, bit⟩
    refine ⟨same, bit.trans (decide_eq_false fun member => ?_)⟩
    exact absurd (held.small member) (Nat.not_lt.mpr above)
  · intro idx inside
    rw [ends_test holds inside, decide_eq_true_eq]
    exact ⟨rfl, Iff.rfl⟩
  · exact ends_count holds ⟨rfl, rfl⟩
  · exact ends_any holds
  · exact ends_all holds
  · exact ends_none holds

namespace Invariant

variable {others : Blocks AlTag (List Word)} (invariant : Invariant others s abs) (realSelf : (s.objs self).al.isSome = true)
  (realOther : (s.objs other).al.isSome = true)

include invariant realSelf realOther

/-- Two bitsets are equal if their universes and their members are. -/
theorem compared : Ends (BitSetObjects.eq self other) s fun answer later =>
    later = s ∧ (answer = true <-> abs self = abs other) := by
  simp only [BitSetObjects.eq, ends_bind, ends_load, ends_within,
    (invariant.holds realSelf).ends_assertBitSet, (invariant.holds realOther).ends_assertBitSet]
  by_cases same : self = other
  · subst same
    simp only [if_true, ends_pure, and_self]
  · simp only [if_neg same, ends_within]
    refine (ends_eqImpl (invariant.holds realSelf) (invariant.holds realOther)).mono ?_
    rintro answer later ⟨rfl, equal⟩
    exact ⟨rfl, equal⟩

theorem included (same : (s.objs self).nbits = (s.objs other).nbits) :
    Ends (BitSetObjects.isSubset self other) s fun answer later =>
      later = s ∧ (answer = true <-> (abs self).members ⊆ (abs other).members) := by
  simp only [BitSetObjects.isSubset, ends_bind, invariant.ends_assertPair realSelf realOther same, ends_within]
  refine (ends_isSubsetImpl (invariant.holds realSelf) (invariant.holds realOther) same).mono ?_
  rintro answer later ⟨rfl, subset⟩
  exact ⟨rfl, subset⟩

theorem overlapping (same : (s.objs self).nbits = (s.objs other).nbits) :
    Ends (BitSetObjects.intersects self other) s fun answer later =>
      later = s ∧ (answer = true <-> ((abs self).members ∩ (abs other).members).Nonempty) := by
  simp only [BitSetObjects.intersects, ends_bind, invariant.ends_assertPair realSelf realOther same,
    ends_within]
  refine (ends_intersectsImpl (invariant.holds realSelf) (invariant.holds realOther) same).mono ?_
  rintro answer later ⟨rfl, meet⟩
  exact ⟨rfl, meet⟩

end Invariant

/-- In every run each bitset stands for the subset that the same run computes
on subsets, two bitsets compare as their subsets do, and every call that is
allowed ends, and goes on the same way on both sides. -/
theorem Follows.subsets (follows : Follows s abs) :
    (forall var, (s.objs var).al.isSome = true -> Represents s.mem (s.objs var) (abs var)) ∧
    (forall self other, (s.objs self).al.isSome = true -> (s.objs other).al.isSome = true ->
      (Ends (BitSetObjects.eq self other) s fun answer later =>
        later = s ∧ (answer = true <-> abs self = abs other)) ∧
      ((s.objs self).nbits = (s.objs other).nbits ->
        (Ends (BitSetObjects.isSubset self other) s fun answer later =>
          later = s ∧ (answer = true <-> (abs self).members ⊆ (abs other).members)) ∧
        Ends (BitSetObjects.intersects self other) s fun answer later =>
          later = s ∧ (answer = true <-> ((abs self).members ∩ (abs other).members).Nonempty))) ∧
    forall call : Call, call.Allowed s -> Ends call.run s fun st later =>
      Follows later (if st = .ok then call.apply abs else abs) := by
  have invariant := follows.invariant
  refine ⟨?_, ?_, ?_⟩
  · exact fun var real => (invariant.holds real).represents
  · intro self other realSelf realOther
    exact ⟨invariant.compared realSelf realOther, fun same =>
      ⟨invariant.included realSelf realOther same, invariant.overlapping realSelf realOther same⟩⟩
  · intro call allowed
    rcases invariant.run call allowed with ⟨st, later, ran, _⟩
    exact ⟨st, later, ran, follows.call call allowed ran⟩

/-! ## A universe that ends within a word -/

/-- The state after a call, if it ended. -/
def Call.after (call : Call) (s : BitSetObjects) : BitSetObjects := ((call.run s).map Prod.snd).getD s

/-- The complement of {1} within the first 70 indices. -/
def complement : BitSetObjects :=
  (Call.task 0 .flipAll).after ((Call.task 0 (.set 1)).after ((Call.make 0 (.initNbits 70 (some 0))).after
    ⟨fun _ => inert, ⟨fun _ => none, some, 0⟩⟩))

theorem complement_follows : exists abs, Follows complement abs ∧ (abs 0).members = Finset.range 70 \ {1} := by
  have made := (Follows.start some).call (.make 0 (.initNbits 70 (some 0))) ⟨rfl, by decide, rfl⟩ rfl
  have marked := made.call (.task 0 (.set 1)) ⟨rfl, (by decide : 1 < 70)⟩ rfl
  have flipped := marked.call (.task 0 .flipAll) ⟨rfl, trivial⟩ rfl
  exact ⟨_, flipped, by decide⟩

theorem Follows.subsets_complement : Ends (count (complement.objs 0)) complement.mem fun number later =>
    later = complement.mem ∧ number = 69 := by
  rcases complement_follows with ⟨abs, follows, members⟩
  have counted := ((Follows.subsets follows).1 0 rfl).count
  rw [members] at counted
  exact counted

end BitSet
end TerseDsa
