import TerseDsa.HSet.Algebra

namespace TerseDsa

open Foundation Run HMap
open Function (update update_self update_of_ne)

/-!
# Set operations that were refused midway

An operation that is refused has dealt with the keys before the refused one and
with none after it.  So the set lies between what it was and what it was to be,
it is well formed, and a union finishes what was begun.
-/

variable {K V C : Type}

namespace HSet

variable {heap later : HMapMem K V} {self after other : HMap K} {table changed others : HMapTable K V}
  {entry : HMapEntry K V} {before entries : List (HMapEntry K V)} {classes : Setoid K}

/-! ## Extending by keys -/

/-- The keys' classes have been added, and all entries are there still. -/
structure Extended (classes : Setoid K) (keys : List K) (start now : List (HMapEntry K V)) : Prop where
  members : classesOf classes now = classesOf classes start ∪ Assoc.cls classes '' {key | key ∈ keys}
  kept : forall entry, entry ∈ start -> entry ∈ now

namespace Extended

variable {start now middle : List (HMapEntry K V)} {key : K} {keys : List K}

theorem nil : Extended classes [] start start := by
  refine ⟨?_, fun _ inside => inside⟩
  simp only [List.not_mem_nil, Set.ofPred_false, Set.image_empty, Set.union_empty]

theorem cons (added : classesOf classes middle = Insert.insert (Assoc.cls classes key) (classesOf classes start))
    (all : forall entry, entry ∈ start -> entry ∈ middle) (extended : Extended classes keys middle now) :
    Extended classes (key :: keys) start now := by
  refine ⟨?_, fun entry inside => extended.kept entry (all entry inside)⟩
  rw [extended.members, added]
  ext cls
  simp only [Set.mem_union, Set.mem_insert_iff, Set.mem_image, Set.mem_ofPred_eq, List.mem_cons]
  constructor
  · rintro ((rfl | inside) | ⟨other, member, rfl⟩)
    · exact Or.inr ⟨key, Or.inl rfl, rfl⟩
    · exact Or.inl inside
    · exact Or.inr ⟨other, Or.inr member, rfl⟩
  · rintro (inside | ⟨other, rfl | member, rfl⟩)
    · exact Or.inl (Or.inr inside)
    · exact Or.inl (Or.inl rfl)
    · exact Or.inr ⟨other, member, rfl⟩

/-- What was begun with some of the keys is finished with all of them. -/
theorem finish {done : List K} (begun : Extended classes done start middle) (extended : Extended classes keys middle now)
    (sub : forall key, key ∈ done -> key ∈ keys) : Extended classes keys start now := by
  refine ⟨?_, fun entry inside => extended.kept entry (begun.kept entry inside)⟩
  have within_ : Assoc.cls classes '' {key | key ∈ done} ⊆ Assoc.cls classes '' {key | key ∈ keys} :=
    Set.image_mono sub
  rw [extended.members, begun.members, Set.union_assoc, Set.union_eq_right.mpr within_]

end Extended

/-- Inserting keys one by one: all of them, or those before one that is refused. -/
theorem insertsAll_extended (compares : Compares self classes) (lawful : Lawful self) (noVal : self.val.size = 0)
    {keys : List K} {st : Status} {now : List (HMapEntry K V)} (keyed : Keyed self before)
    (distinct : (addrs before).Nodup)
    (inserts : InsertsAll self (keys.map fun key => (key, none)) before st now) :
    (st = .ok -> Extended classes keys before now) ∧
    (st ≠ .ok -> exists done key rest, keys = done ++ key :: rest ∧ Extended classes done before now ∧
      Assoc.cls classes key ∉ classesOf classes now) := by
  induction keys generalizing before with
  | nil =>
      cases inserts
      exact ⟨fun _ => .nil, fun impossible => absurd rfl impossible⟩
  | cons key rest ih =>
      cases inserts with
      | again first distinctMiddle others =>
          rcases inserts_classes compares lawful keyed noVal distinct first with ⟨added, all⟩
          rcases ih (first.keyed lawful keyed) distinctMiddle others with ⟨whole, part⟩
          refine ⟨fun ok => (whole ok).cons added all, fun refused => ?_⟩
          rcases part refused with ⟨done, stopped, left, split, extended, missing⟩
          exact ⟨key :: done, stopped, left, by rw [split, List.cons_append], extended.cons added all, missing⟩
      | stopped first =>
          rcases refused_classes compares lawful keyed first with ⟨perm, missing⟩
          refine ⟨fun impossible => (by cases impossible), fun _ => ⟨[], key, rest, rfl, ?_, missing⟩⟩
          refine ⟨?_, fun entry inside => perm.mem_iff.mpr inside⟩
          rw [classesOf_perm perm, ← Extended.nil.members]

/-- Where the allocator grants everything and the keys can be counted, all of them are inserted. -/
theorem grants_insertAll {keys : List K} (rep : Rep heap.blocks self table) (shape : Shape self table)
    (noVal : self.val.size = 0) (generous : heap.Generous) (small : self.len + keys.length ≤ 2 ^ 60) :
    Ends (insertAll self (keys.map fun key => (key, none))) heap fun result _ => result.1 = .ok := by
  induction keys generalizing heap self table with
  | nil => exact (ends_pure _ _ _).mpr rfl
  | cons key rest ih =>
      rw [List.length_cons] at small
      simp only [List.map_cons, insertAll, ends_bind]
      refine (ends_edit_insert noVal (Tends.refl rep shape) (fun _ : True => generous) (fun _ => by omega)).mono ?_
      rintro ⟨st, isNew, after⟩ later ⟨changed, tends, inserts, granted⟩
      rcases granted trivial with ⟨rfl, generousAfter⟩
      have longer := inserts_length inserts
      have counted : after.len = changed.flatten.length := tends.steps.shape.len
      rw [← shape.len, ← counted] at longer
      simp only [if_granted]
      exact ih tends.steps.rep tends.steps.shape (tends.val_size noVal) generousAfter (by omega)

/-! ## What is outside is as it was -/

/-- The entries of a class that the operation did not change are the ones that were there. -/
theorem Edited.outside {op : PairOp} {passed start now : List (HMapEntry K V)} (compares : Compares self classes)
    (lawful : Lawful self) (keyed : Keyed self now) (edited : Edited classes op passed start now)
    (same : Assoc.cls classes entry.key ∈ classesOf classes now <->
      Assoc.cls classes entry.key ∈ classesOf classes start) : entry ∈ now <-> entry ∈ start := by
  constructor
  · intro inside
    rcases same.mp (mem_classesOf inside) with ⟨other, member, alike⟩
    have there := edited.kept other member (alike ▸ mem_classesOf inside)
    rw [keyed.eq_of_eq lawful inside there ((compares _ _).mp alike.symm)]
    exact member
  · exact fun inside => edited.kept entry inside (same.mpr (mem_classesOf inside))

end HSet

/-! ## Objects -/

open Objects HMapObjects

/-- The objects, with other answers of the allocator to the requests to come. -/
def HMapObjects.granting (s : HMapObjects K V) (answers : Nat -> Option Addr) : HMapObjects K V :=
  { s with mem := { s.mem with answers := answers } }

/-- `tda_hset_extend` of an object, with its status. -/
def HMapObjects.attemptExtend (self : Nat) (src : SpanView K) : Run (HMapObjects K V) Status := do
  let (st, a) ← within (HSet.extend (← load self) src)
  store self a
  return st

/-- A set that stands for the classes of the entries, well formed. -/
structure Stands (classes : Setoid K) (s : HMapObjects K V) (self : Nat) (entries : List (HMapEntry K V)) : Prop where
  represented : exists table, WellFormed (s.objs self) s.mem table ∧ table.flatten = entries
  denotes : HSet.Denotes classes (s.objs self) s.mem entries

/-- What is left by a call that `self` went out of as `now`: it stands, `other` is as it was, and whatever the
allocator answers from there on, a union that succeeds has all classes of both; it does succeed if everything is
granted, as long as the keys can be counted. -/
structure Halfway (classes : Setoid K) (s later : HMapObjects K V) (self other : Nat)
    (now theirs : List (HMapEntry K V)) (all : Set (Quotient classes)) : Prop where
  stands : Stands classes later self now
  unchanged : later.objs other = s.objs other ∧ HSet.Denotes classes (later.objs other) later.mem theirs
  again : forall answers, Ends (attempt .union self other) (later.granting answers) fun st last =>
    (st = .ok -> exists full, Stands classes last self full ∧ HSet.classesOf classes full = all) ∧
    ((later.granting answers).mem.Generous -> (later.objs self).len + (later.objs other).len ≤ 2 ^ 60 -> st = .ok)

variable {s later : HMapObjects K V} {self other : Nat} {tables : Nat -> HMapTable K V} {classes : Setoid K}

theorem Invariant.granting (invariant : Invariant s tables) (answers : Nat -> Option Addr) :
    Invariant (s.granting answers) tables :=
  ⟨invariant.held, invariant.division⟩

theorem Held.stands {table : HMapTable K V} (held : Held s.mem.blocks (s.objs self) table)
    (isSet : Call.IsSet (s.objs self)) (compares : Compares (s.objs self) classes) (lawful : Lawful (s.objs self)) :
    Stands classes s self table.flatten :=
  ⟨⟨table, held.wellFormed isSet.1 lawful, rfl⟩, held.denotes isSet compares lawful⟩

section After

variable (invariant : Invariant s tables) (setSelf : Call.IsSet (s.objs self))
  (compares : Compares (s.objs self) classes) (lawful : Lawful (s.objs self)) {after : HMap K}
  {changed : HMapTable K V} (objs : later.objs = update s.objs self after)
  (tends : Tends s.mem later.mem (s.objs self) after (tables self) changed)

include invariant objs tends

theorem Invariant.moved : Invariant later (update tables self changed) := by
  have tended := invariant.tended tends
  rw [← objs] at tended
  exact tended

include setSelf compares lawful

/-- The object is a set of the same keys. -/
theorem Invariant.callbacks : Call.IsSet (later.objs self) ∧ Compares (later.objs self) classes ∧
    Lawful (later.objs self) ∧ (later.objs self).key = (s.objs self).key := by
  have now_ := HSet.callbacks_of_tends tends compares lawful ((invariant.heldBy self).keyed lawful)
  rw [objs, update_self]
  exact ⟨⟨tends.steps.shape.real, tends.val_size setSelf.2⟩, now_.1, now_.2.1, (congrArg HMap.key tends.steps.kind :)⟩

theorem Invariant.stands : Stands classes later self changed.flatten := by
  rcases invariant.callbacks setSelf compares lawful objs tends with ⟨setNow, comparesNow, lawfulNow, _⟩
  have held := (invariant.moved objs tends).heldBy self
  rw [update_self] at held
  exact held.stands setNow comparesNow lawfulNow

/-- What a call on `self` leaves, whatever it was for. -/
theorem Invariant.halfway (setOther : Call.IsSet (s.objs other)) (sameKey : (s.objs self).key = (s.objs other).key)
    (comparesOther : Compares (s.objs other) classes) (lawfulOther : Lawful (s.objs other)) (different : self ≠ other) :
    Halfway classes s later self other changed.flatten (tables other).flatten
      (HSet.classesOf classes changed.flatten ∪ HSet.classesOf classes (tables other).flatten) := by
  rcases invariant.callbacks setSelf compares lawful objs tends with ⟨setNow, comparesNow, lawfulNow, keyNow⟩
  have moved := invariant.moved objs tends
  have atOther : later.objs other = s.objs other := by rw [objs, update_of_ne fun same => different same.symm]
  have heldOther := moved.heldBy other
  rw [update_of_ne fun same => different same.symm] at heldOther
  rw [← atOther] at setOther comparesOther lawfulOther sameKey
  refine ⟨invariant.stands setSelf compares lawful objs tends,
    ⟨atOther, heldOther.denotes setOther comparesOther lawfulOther⟩, fun answers => ?_⟩
  have granting := moved.granting answers
  refine (granting.attempted setNow setOther (keyNow.trans sameKey) comparesNow comparesOther lawfulNow lawfulOther
    .union).mono ?_
  rintro st last ⟨final, latest, objsLast, tendsLast, reached, _, granted⟩
  refine ⟨fun ok => ⟨latest.flatten, granting.stands setNow comparesNow lawfulNow objsLast tendsLast, ?_⟩, granted⟩
  rw [(reached.done ok).members, update_self, update_of_ne fun same => different same.symm]
  rfl

end After

/-- What extending a set comes to. -/
theorem Invariant.ends_extend (invariant : Invariant s tables) (setSelf : Call.IsSet (s.objs self))
    (compares : Compares (s.objs self) classes) (lawful : Lawful (s.objs self)) {src : SpanView K}
    (sameKeys : (s.objs self).key = src.elem) : Ends (attemptExtend self src) s fun st later =>
      exists after changed, later.objs = update s.objs self after ∧
        Tends s.mem later.mem (s.objs self) after (tables self) changed ∧
        ((st = .ok -> HSet.Extended classes src.elems (tables self).flatten changed.flatten) ∧
          (st ≠ .ok -> exists done key rest, src.elems = done ++ key :: rest ∧
            HSet.Extended classes done (tables self).flatten changed.flatten ∧
            Assoc.cls classes key ∉ HSet.classesOf classes changed.flatten)) ∧
        (s.mem.Generous -> (s.objs self).len + src.len ≤ 2 ^ 60 -> st = .ok) := by
  have held := invariant.heldBy self
  have shape := held.shape setSelf.1
  have inserts : Ends (insertAll (s.objs self) (src.elems.map fun key => (key, none))) s.mem fun result mem =>
      exists changed, Steps s.mem.blocks mem.blocks (s.objs self) result.2 (tables self) changed ∧
        InsertsAll (s.objs self) (src.elems.map fun key => (key, none)) (tables self).flatten result.1
          changed.flatten := by
    refine ends_insertAll held.rep shape (fun _ _ => Or.inr setSelf.2) ?_
    exact fun st after changed mem steps inserts => ⟨changed, steps, inserts⟩
  rcases inserts with ⟨⟨st, after⟩, mem, ran, changed, steps, inserts⟩
  have tends : Tends s.mem mem (s.objs self) after (tables self) changed := ⟨steps, inserts.keyed⟩
  simp only [attemptExtend, HSet.extend, ends_bind, ends_load, ends_within, ends_store, ends_pure,
    HSet.ends_assertHSet shape setSelf.2, ends_require]
  refine ⟨sameKeys, (st, after), mem, ran, (HSet.ends_assertHSet steps.shape (tends.val_size setSelf.2)).mpr ?_⟩
  refine ⟨after, changed, rfl, tends, ?_, fun generous small => ?_⟩
  · exact HSet.insertsAll_extended compares lawful setSelf.2 (held.keyed lawful) held.rep.distinct inserts
  · exact (HSet.grants_insertAll held.rep shape setSelf.2 generous small).of_eq ran

/-- The state after extending a set is one that a program can come to. -/
theorem Reachable.extended (reachable : Reachable C s) {src : SpanView K} {st : Status}
    (allowed : (Call.set (V := V) (C := C) self (.extend src)).Allowed s)
    (ran : attemptExtend self src s = some (st, later)) : Reachable C later := by
  have ends : Ends (attemptExtend self src) s fun _ t => t = later := ⟨st, later, ran, rfl⟩
  have called : Ends (Call.set (V := V) (C := C) self (.extend src)).run s fun st t =>
      st = .ok ∧ t = later := by
    simp only [attemptExtend, ends_bind, ends_load, ends_within, ends_store, ends_pure] at ends
    simp only [Call.run, SetOp.run, ends_bind, ends_load, ends_within, ends_store, ends_pure, true_and]
    exact ends
  rcases called with ⟨_, _, ranCall, rfl, rfl⟩
  exact reachable.call _ allowed ranCall

/-- At whatever request the allocator refuses: a union has added the keys of `other` up to the refused one, a
symmetric difference has flipped them, an extension has added the keys of the span, and nothing else has changed.
The set is well formed, `other` is as it was, and once allocations are granted a union has all keys of both. -/
theorem Reachable.refused_midway (reachable : Reachable C s) (setSelf : Call.IsSet (s.objs self))
    (setOther : Call.IsSet (s.objs other)) (sameKey : (s.objs self).key = (s.objs other).key)
    (sameEq : (s.objs other).eq = (s.objs self).eq) (lawful : Lawful (s.objs self))
    (lawfulOther : Lawful (s.objs other)) :
    exists mine theirs : List (HMapEntry K V),
      HSet.Denotes lawful.classes (s.objs self) s.mem mine ∧
      HSet.Denotes lawful.classes (s.objs other) s.mem theirs ∧
      (Ends (attempt .union self other) s fun st later => st ≠ .ok -> Reachable C later ∧
        exists passed refused rest now, theirs = passed ++ refused :: rest ∧
          (forall entry, entry ∈ mine -> entry ∈ now) ∧
          HSet.classesOf lawful.classes now =
            HSet.classesOf lawful.classes mine ∪ HSet.classesOf lawful.classes passed ∧
          Assoc.cls lawful.classes refused.key ∉ HSet.classesOf lawful.classes now ∧
          Halfway lawful.classes s later self other now theirs
            (HSet.classesOf lawful.classes mine ∪ HSet.classesOf lawful.classes theirs)) ∧
      (Ends (attempt .symmetricDifference self other) s fun st later => st ≠ .ok -> Reachable C later ∧
        exists passed refused rest now, theirs = passed ++ refused :: rest ∧
          (forall entry, Assoc.cls lawful.classes entry.key ∉ HSet.classesOf lawful.classes theirs ->
            (entry ∈ now <-> entry ∈ mine)) ∧
          (forall cls, cls ∈ HSet.classesOf lawful.classes passed ->
            (cls ∈ HSet.classesOf lawful.classes now <-> cls ∉ HSet.classesOf lawful.classes mine)) ∧
          (forall cls, cls ∉ HSet.classesOf lawful.classes passed ->
            (cls ∈ HSet.classesOf lawful.classes now <-> cls ∈ HSet.classesOf lawful.classes mine)) ∧
          Assoc.cls lawful.classes refused.key ∉ HSet.classesOf lawful.classes now ∧
          Halfway lawful.classes s later self other now theirs
            (HSet.classesOf lawful.classes mine ∪ HSet.classesOf lawful.classes theirs)) ∧
      forall src : SpanView K, (s.objs self).key = src.elem ->
        Ends (attemptExtend self src) s fun st later => st ≠ .ok -> Reachable C later ∧
          exists done refused rest now, src.elems = done ++ refused :: rest ∧
            HSet.Extended lawful.classes done mine now ∧
            Assoc.cls lawful.classes refused ∉ HSet.classesOf lawful.classes now ∧
            Stands lawful.classes later self now ∧
            (self ≠ other -> Halfway lawful.classes s later self other now theirs
              (HSet.classesOf lawful.classes now ∪ HSet.classesOf lawful.classes theirs)) ∧
            forall answers, Ends (attemptExtend self src) (later.granting answers) fun st last =>
              (st = .ok -> exists full, Stands lawful.classes last self full ∧
                HSet.Extended lawful.classes src.elems mine full) ∧
              ((later.granting answers).mem.Generous -> (later.objs self).len + src.len ≤ 2 ^ 60 -> st = .ok) := by
  rcases reachable.invariant with ⟨tables, invariant⟩
  have heldSelf := invariant.heldBy self
  have heldOther := invariant.heldBy other
  have compares : Compares (s.objs self) lawful.classes := fun left right => Quotient.eq
  have comparesOther : Compares (s.objs other) lawful.classes := by
    unfold Compares
    rw [sameEq]
    exact compares
  -- a refused operation on two sets, whichever it is
  have midway : forall op : PairOp, Ends (attempt op self other) s fun st later => st ≠ .ok -> Reachable C later ∧
      exists passed refused rest now, (tables other).flatten = passed ++ refused :: rest ∧
        HSet.Edited lawful.classes op passed (tables self).flatten now ∧
        Assoc.cls lawful.classes refused.key ∉ HSet.classesOf lawful.classes now ∧
        (forall entry, (Assoc.cls lawful.classes entry.key ∈ HSet.classesOf lawful.classes now <->
          Assoc.cls lawful.classes entry.key ∈ HSet.classesOf lawful.classes (tables self).flatten) ->
            (entry ∈ now <-> entry ∈ (tables self).flatten)) ∧
        (forall cls, cls ∈ HSet.classesOf lawful.classes passed ->
          cls ∈ HSet.classesOf lawful.classes (tables other).flatten) ∧
        Halfway lawful.classes s later self other now (tables other).flatten
          (HSet.classesOf lawful.classes now ∪ HSet.classesOf lawful.classes (tables other).flatten) := by
    intro op
    rcases invariant.attempted setSelf setOther sameKey compares comparesOther lawful lawfulOther op with
      ⟨st, later, ran, after, changed, objs, tends, reached, same, _⟩
    refine ⟨st, later, ran, fun refused => ⟨reachable.attempted ⟨setSelf, setOther, sameKey⟩ ran, ?_⟩⟩
    have now_ := HSet.callbacks_of_tends tends compares lawful (heldSelf.keyed lawful)
    rcases reached.stopped refused with ⟨passed, stopped, rest, split, edited, missing⟩
    refine ⟨passed, stopped, rest, changed.flatten, split, edited, missing, ?_, ?_, ?_⟩
    · exact fun entry => edited.outside now_.1 now_.2.1 now_.2.2
    · rintro _ ⟨entry, member, rfl⟩
      exact HSet.mem_classesOf (split ▸ List.mem_append_left _ member)
    · exact invariant.halfway setSelf compares lawful objs tends setOther sameKey comparesOther lawfulOther
        fun equal => refused (same equal)
  refine ⟨_, _, heldSelf.denotes setSelf compares lawful, heldOther.denotes setOther comparesOther lawfulOther,
    ?_, ?_, ?_⟩
  · refine (midway .union).mono fun st later found refused => ?_
    rcases found refused with ⟨reached, passed, stopped, rest, now, split, edited, missing, _, sub, halfway⟩
    have members : HSet.classesOf lawful.classes now = HSet.classesOf lawful.classes (tables self).flatten ∪
        HSet.classesOf lawful.classes passed := edited.members
    refine ⟨reached, passed, stopped, rest, now, split, ?_, members, missing, ?_⟩
    · intro entry inside
      refine edited.kept entry inside ?_
      rw [members]
      exact Or.inl (HSet.mem_classesOf inside)
    · rw [members, Set.union_assoc, Set.union_eq_right.mpr sub] at halfway
      exact halfway
  · refine (midway .symmetricDifference).mono fun st later found refused => ?_
    rcases found refused with ⟨reached, passed, stopped, rest, now, split, edited, missing, outside, sub, halfway⟩
    have members : forall cls, cls ∈ HSet.classesOf lawful.classes now <->
        cls ∈ symmDiff (HSet.classesOf lawful.classes (tables self).flatten)
          (HSet.classesOf lawful.classes passed) := fun cls => by rw [edited.members]; rfl
    simp only [Set.mem_symmDiff] at members
    refine ⟨reached, passed, stopped, rest, now, split, ?_, ?_, ?_, missing, ?_⟩
    · intro entry notTheirs
      refine outside entry ?_
      have notPassed := fun inside => notTheirs (sub _ inside)
      rw [members]
      tauto
    · intro cls inside
      rw [members]
      tauto
    · intro cls outside_
      rw [members]
      tauto
    · have all : HSet.classesOf lawful.classes now ∪ HSet.classesOf lawful.classes (tables other).flatten =
          HSet.classesOf lawful.classes (tables self).flatten ∪
            HSet.classesOf lawful.classes (tables other).flatten := by
        ext cls
        have within_ := sub cls
        rw [Set.mem_union, Set.mem_union, members]
        tauto
      exact all ▸ halfway
  · intro src sameKeys
    rcases invariant.ends_extend setSelf compares lawful sameKeys with
      ⟨st, later, ran, after, changed, objs, tends, ⟨_, part⟩, _⟩
    refine ⟨st, later, ran, fun refused => ⟨reachable.extended ⟨setSelf.1, setSelf.2, sameKeys⟩ ran, ?_⟩⟩
    rcases part refused with ⟨done, stopped, rest, split, extended, missing⟩
    rcases invariant.callbacks setSelf compares lawful objs tends with ⟨setNow, comparesNow, lawfulNow, keyNow⟩
    have granting := fun answers => (invariant.moved objs tends).granting answers
    refine ⟨done, stopped, rest, changed.flatten, split, extended, missing,
      invariant.stands setSelf compares lawful objs tends,
      invariant.halfway setSelf compares lawful objs tends setOther sameKey comparesOther lawfulOther, ?_⟩
    intro answers
    refine ((granting answers).ends_extend setNow comparesNow lawfulNow (keyNow.trans sameKeys)).mono ?_
    rintro st' last ⟨final, latest, objsLast, tendsLast, ⟨whole, _⟩, granted⟩
    refine ⟨fun ok => ⟨latest.flatten, ?_, ?_⟩, granted⟩
    · exact (granting answers).stands setNow comparesNow lawfulNow objsLast tendsLast
    · have finished := whole ok
      rw [update_self] at finished
      exact extended.finish finished fun key inside => split ▸ List.mem_append_left _ inside

/-! ## A key that there is no memory for -/

/-- One of two sets gets two keys. -/
def twoKeys : HMapObjects Nat Unit :=
  ((twoSets fiveGrants).after (C := Unit) (Call.set 0 (.insert 5))).after (C := Unit) (Call.set 0 (.insert 6))

theorem twoKeys_reachable : Reachable Unit twoKeys := by
  have one := (twoSets_reachable fiveGrants).after (Call.set (C := Unit) 0 (.insert 5)) ⟨rfl, rfl, trivial⟩
  exact one.after (Call.set 0 (.insert 6)) ⟨rfl, rfl, trivial⟩

/-- There is memory for one of them in the other set. -/
theorem Reachable.refused_midway_twoKeys : exists (last : HMapObjects Nat Unit) (classes : Setoid Nat),
    attempt .union 1 0 twoKeys = some (.errNoMem, last) ∧ (last.objs 1).len = 1 ∧
      exists now theirs all, theirs.length = 2 ∧ Halfway classes twoKeys last 1 0 now theirs all := by
  have lawful : Lawful (twoKeys.objs 1) := lawful_beq rfl
  have lawfulOther : Lawful (twoKeys.objs 0) := lawful_beq rfl
  have setSelf : Call.IsSet (twoKeys.objs 1) := ⟨rfl, rfl⟩
  have setOther : Call.IsSet (twoKeys.objs 0) := ⟨rfl, rfl⟩
  rcases Reachable.refused_midway twoKeys_reachable setSelf setOther rfl rfl lawful lawfulOther with
    ⟨_, theirs, _, denotes, union_, _⟩
  have ran : (attempt .union 1 0 twoKeys).map (fun out => (out.1, (out.2.objs 1).len)) = some (.errNoMem, 1) := rfl
  rcases Option.map_eq_some_iff.mp ran with ⟨⟨st, last⟩, same, fields⟩
  rcases Prod.mk.inj fields with ⟨rfl, len⟩
  rcases union_.of_eq same (by decide) with ⟨_, _, _, _, now, _, _, _, _, halfway⟩
  have both := (denotes.walked.of_eq rfl).1
  exact ⟨last, lawful.classes, same, len, now, theirs, _, congrArg List.length both.symm, halfway⟩

end TerseDsa
