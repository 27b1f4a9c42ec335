import TerseDsa.HMap.Discipline
import TerseDsa.Core.Scalar

namespace TerseDsa

open Foundation Run HMap

/-!
# Comparing maps is comparing what they hold

The comparison walks one map and looks its keys up in the other, by the other's
hasher.  Since the maps are as long as each other and keys are held once, what
the one has with equal values is all that the other has.
-/

variable {K V C : Type} {s : HMapObjects K V} {self other : Nat}

/-- What a map answers to lookups tells what it holds. -/
theorem AnswersAs.unique {map : HMap K} {heap : HMapMem K V} {classes : Setoid K}
    {assoc also : Assoc classes (Option V)} (answers : AnswersAs map heap assoc)
    (alsoAnswers : AnswersAs map heap also) : assoc = also := by
  funext found
  induction found using Quotient.ind with
  | _ key =>
      rcases answers.find key with ⟨node, later, ran, rfl, here⟩
      rcases alsoAnswers.find key with ⟨node', later', ran', rfl, there⟩
      rw [ran, Option.some_inj, Prod.mk.injEq] at ran'
      rcases ran' with ⟨rfl, _⟩
      cases node with
      | none => exact here.trans there.symm
      | some node =>
          rcases here with ⟨entry, last, read, holds, _⟩
          rcases there with ⟨entry', last', read', holds', _⟩
          rw [read, Option.some_inj, Prod.mk.injEq] at read'
          exact holds.trans (read'.1 ▸ holds'.symm)

namespace HMap

variable {heap : HMapMem K V} {a b : HMap K} {left right : HMapTable K V} {classes : Setoid K}
  {mine theirs : Assoc classes (Option V)} {valEq : Option V -> Option V -> Bool}

/-- The pure function that `eq_impl` computes tells whether the associations agree. -/
theorem all_hasEqual_iff (shapeA : Shape a left) (listsA : mine.Lists (bindings left.flatten)) (shapeB : Shape b right)
    (comparesB : Compares b classes) (lawfulB : Lawful b) (keyedB : Keyed b right.flatten)
    (listsB : theirs.Lists (bindings right.flatten)) :
    (a.len == b.len && left.flatten.all (hasEqual b right valEq)) = true <->
      Assoc.Agree (fun here there => valEq here there = true) mine theirs := by
  rw [listsA.agree_iff listsB, Bool.and_eq_true, beq_iff_eq, shapeA.len, shapeB.len, List.all_eq_true]
  unfold bindings
  rw [List.length_map, List.length_map, List.forall_mem_map]
  refine and_congr_right fun _ => forall₂_congr fun entry _ => ?_
  have found_eq : (entryFor b right entry.key).map (fun held => (held.key, held.val)) =
      theirs (Assoc.cls classes entry.key) := entryFor_eq shapeB comparesB lawfulB keyedB listsB
  cases found : entryFor b right entry.key with
  | none =>
      rw [found, Option.map_none] at found_eq
      rw [hasEqual_none found, ← found_eq]
      refine iff_of_false Bool.false_ne_true ?_
      rintro ⟨_, impossible, _⟩
      cases impossible
  | some held =>
      rw [found, Option.map_some] at found_eq
      rw [hasEqual_some found, ← found_eq]
      constructor
      · exact fun same => ⟨_, rfl, same⟩
      · rintro ⟨_, isHeld, same⟩
        cases isHeld
        exact same

end HMap

/-- How two maps compare: they have associations, their lookups answer as these, and whatever else they are
made of, `eq` tells whether the same keys have the same values, from either side, and `eq_by` whether they
have equal values or there is just one map. -/
structure ComparesAs [DecidableEq V] (classes : Setoid K) (s : HMapObjects K V) (self other : Nat) : Prop where
  held : exists mine theirs : Assoc classes (Option V),
    AnswersAs (s.objs self) s.mem mine ∧ AnswersAs (s.objs other) s.mem theirs
  eq : forall mine theirs : Assoc classes (Option V), AnswersAs (s.objs self) s.mem mine ->
    AnswersAs (s.objs other) s.mem theirs ->
    Ends (HMapObjects.eq self other fun here there => decide (here = there)) s fun answer later =>
      later = s ∧ (answer = true <-> Assoc.Agree (· = ·) mine theirs)
  eqBy : forall mine theirs : Assoc classes (Option V), AnswersAs (s.objs self) s.mem mine ->
    AnswersAs (s.objs other) s.mem theirs -> forall valEq : Option V -> Option V -> Bool,
    Ends (HMapObjects.eq self other valEq) s fun answer later =>
      later = s ∧ (answer = true <-> self = other ∨
        Assoc.Agree (fun here there => valEq here there = true) mine theirs)
  swap : exists answer,
    (Ends (HMapObjects.eq self other fun here there => decide (here = there)) s fun found later =>
      found = answer ∧ later = s) ∧
    Ends (HMapObjects.eq other self fun here there => decide (here = there)) s fun found later =>
      found = answer ∧ later = s

open Objects in
/-- The comparison of two objects, in terms of what their tables list. -/
theorem Invariant.ends_eq {tables : Nat -> HMapTable K V} (invariant : Invariant s tables)
    (realSelf : (s.objs self).al.isSome = true) (realOther : (s.objs other).al.isSome = true)
    (alike : Call.Alike (s.objs self) (s.objs other)) {classes : Setoid K} (comparesOther : Compares (s.objs other) classes)
    (lawfulOther : Lawful (s.objs other)) {mine theirs : Assoc classes (Option V)}
    (lists : mine.Lists (bindings (tables self).flatten)) (also : theirs.Lists (bindings (tables other).flatten))
    (valEq : Option V -> Option V -> Bool) :
    Ends (HMapObjects.eq self other valEq) s fun answer later => later = s ∧ (answer = true <-> self = other ∨
      Assoc.Agree (fun here there => valEq here there = true) mine theirs) := by
  have heldSelf := invariant.heldBy self
  have heldOther := invariant.heldBy other
  have shapeSelf := heldSelf.shape realSelf
  have shapeOther := heldOther.shape realOther
  simp only [HMapObjects.eq, ends_bind, ends_load, ends_within, ends_assertHMap (shapeSelf.asserts heldSelf.rep),
    ends_assertHMap (shapeOther.asserts heldOther.rep), Invariant.ends_expectSame alike]
  by_cases same : self = other
  · rw [if_pos same, ends_pure]
    exact ⟨rfl, iff_of_true rfl (Or.inl same)⟩
  · rw [if_neg same, ends_within]
    refine ends_eqImpl heldSelf.rep shapeSelf heldOther.rep shapeOther ⟨rfl, ?_⟩
    rw [all_hasEqual_iff shapeSelf lists shapeOther comparesOther lawfulOther (heldOther.keyed lawfulOther) also,
      or_iff_right same]

/-- Maps of one key equality compare as what they hold, in every state a program comes to. -/
theorem Reachable.maps_compare [DecidableEq V] (reachable : Reachable C s) (realSelf : (s.objs self).al.isSome = true)
    (realOther : (s.objs other).al.isSome = true) (alike : Call.Alike (s.objs self) (s.objs other))
    (sameEq : (s.objs other).eq = (s.objs self).eq) (lawful : Lawful (s.objs self))
    (lawfulOther : Lawful (s.objs other)) : ComparesAs lawful.classes s self other := by
  rcases reachable.invariant with ⟨tables, invariant⟩
  have heldSelf := invariant.heldBy self
  have heldOther := invariant.heldBy other
  have compares : Compares (s.objs self) lawful.classes := fun left right => Quotient.eq
  have comparesOther : Compares (s.objs other) lawful.classes := by
    unfold Compares
    rw [sameEq]
    exact compares
  have keyedSelf := heldSelf.keyed lawful
  have keyedOther := heldOther.keyed lawfulOther
  rcases exists_lists compares keyedSelf with ⟨mine, lists⟩
  rcases exists_lists comparesOther keyedOther with ⟨theirs, also⟩
  have answersSelf := answersAs heldSelf.rep (heldSelf.shape realSelf) compares lawful keyedSelf lists
  have answersOther := answersAs heldOther.rep (heldOther.shape realOther) comparesOther lawfulOther keyedOther also
  have forwards := invariant.ends_eq realSelf realOther alike comparesOther lawfulOther lists also
  have backwards := invariant.ends_eq realOther realSelf ⟨alike.1.symm, alike.2.symm⟩ compares lawful also lists
  have bytes : forall {one two : Assoc lawful.classes (Option V)},
      Assoc.Agree (fun here there => decide (here = there) = true) one two <-> Assoc.Agree (· = ·) one two := by
    intro one two
    simp only [decide_eq_true_eq]
  have one_map : self = other -> Assoc.Agree (· = ·) mine theirs := by
    rintro rfl
    rw [answersSelf.unique answersOther]
    exact Assoc.Agree.refl fun _ => rfl
  refine ⟨⟨mine, theirs, answersSelf, answersOther⟩, ?_, ?_, ?_⟩
  · intro one two first second
    rw [first.unique answersSelf, second.unique answersOther]
    refine (forwards _).mono ?_
    rintro answer later ⟨unchanged, tells⟩
    rw [bytes] at tells
    exact ⟨unchanged, tells.trans (or_iff_right_of_imp one_map)⟩
  · intro one two first second
    rw [first.unique answersSelf, second.unique answersOther]
    exact forwards
  · rcases forwards fun here there => decide (here = there) with ⟨answer, later, ran, rfl, tells⟩
    refine ⟨answer, ⟨answer, _, ran, rfl, rfl⟩, (backwards _).mono ?_⟩
    rintro found last ⟨unchanged, tellsBack⟩
    refine ⟨Bool.eq_iff_iff.mpr ?_, unchanged⟩
    rw [bytes] at tells tellsBack
    rw [tells, tellsBack]
    exact or_congr eq_comm (Assoc.agree_comm.trans (by simp only [eq_comm]))

/-! ## A value that is not a number -/

/-- `==` of the floats that two values are. -/
def sameFloats : Option Nat -> Option Nat -> Bool
  | some here, some there => floatF32.eq here there
  | _, _ => false

/-- A map gets a key with a value that is not a number, and so does another, which hashes all keys alike. -/
def twoNans : HMapObjects Nat Nat :=
  (((oneMap (BitVec.ofNat 64) some).after (C := Unit) (Call.map 0 (.insert 5 nanCanon32))).after (C := Unit)
    (Call.init 1 ⟨8, 8⟩ ⟨4, 4⟩ (fun _ => 0) (fun left right => left == right) (some 0))).after (C := Unit)
    (Call.map 1 (.insert 5 nanCanon32))

theorem twoNans_reachable : Reachable Unit twoNans := by
  have first := (oneMap_reachable (C := Unit) (BitVec.ofNat 64) some).after (Call.map 0 (.insert 5 nanCanon32)) ⟨rfl, trivial⟩
  have second := first.after (Call.init 1 ⟨8, 8⟩ ⟨4, 4⟩ (fun _ => 0) (fun left right => left == right) (some 0))
    ⟨rfl, ⟨⟨32, 8⟩, 16, 24, ⟨by decide, by decide, by decide, by decide⟩⟩, by decide⟩
  exact second.after (Call.map 1 (.insert 5 nanCanon32)) ⟨rfl, trivial⟩

theorem twoNans_hashers : (twoNans.objs 0).hasher ≠ (twoNans.objs 1).hasher := by
  intro same
  have one : (BitVec.ofNat 64 1 : Hash) = 0 := congrFun same 1
  exact absurd one (by decide)

/-- Two maps that hash their keys differently are compared. -/
theorem Reachable.maps_compare_two : exists (s : HMapObjects Nat Nat) (classes : Setoid Nat),
    (s.objs 0).hasher ≠ (s.objs 1).hasher ∧ ComparesAs classes s 0 1 := by
  have lawful : Lawful (twoNans.objs 0) := lawful_beq rfl
  have lawfulOther : Lawful (twoNans.objs 1) := lawful_beq rfl
  exact ⟨twoNans, lawful.classes, twoNans_hashers,
    Reachable.maps_compare twoNans_reachable (show (twoNans.objs 0).al.isSome = true from rfl)
      (show (twoNans.objs 1).al.isSome = true from rfl) ⟨rfl, rfl⟩ rfl lawful lawfulOther⟩

/-- A map is equal to itself, also if a value in it is not equal to itself. -/
theorem HMapObjects.eq_self_nan : exists (s : HMapObjects Nat Nat) (classes : Setoid Nat)
    (held : Assoc classes (Option Nat)), Reachable Unit s ∧ Lawful (s.objs 0) ∧ AnswersAs (s.objs 0) s.mem held ∧
    (Ends (HMapObjects.eq 0 0 sameFloats) s fun answer _ => answer = true) ∧
    ¬ Assoc.Agree (fun here there => sameFloats here there = true) held held := by
  have lawful : Lawful (twoNans.objs 0) := lawful_beq rfl
  have real : (twoNans.objs 0).al.isSome = true := rfl
  have found : (twoNans.objs 0).get 5 twoNans.mem = some (some (some nanCanon32), twoNans.mem) := rfl
  rcases twoNans_reachable.invariant with ⟨tables, invariant⟩
  have heldMap := invariant.heldBy 0
  have compares : Compares (twoNans.objs 0) lawful.classes := fun left right => Quotient.eq
  rcases exists_lists compares (heldMap.keyed lawful) with ⟨held, lists⟩
  have answers := answersAs heldMap.rep (heldMap.shape real) compares lawful (heldMap.keyed lawful) lists
  refine ⟨twoNans, lawful.classes, held, twoNans_reachable, lawful, answers, ?_, ?_⟩
  · exact (invariant.ends_eq real real ⟨rfl, rfl⟩ compares lawful lists lists sameFloats).mono
      fun answer _ tells => tells.2.mpr (Or.inl rfl)
  · intro agree
    have at_ := (answers.get 5).of_eq found
    have here := agree (Assoc.cls lawful.classes 5)
    cases holds : held (Assoc.cls lawful.classes 5) with
    | none =>
        rw [holds] at at_
        cases at_.1
    | some pair =>
        rw [holds, Option.map_some, Option.some_inj] at at_
        rw [holds, Option.rel_some_some, ← at_.1] at here
        exact absurd here (by decide)

end TerseDsa
