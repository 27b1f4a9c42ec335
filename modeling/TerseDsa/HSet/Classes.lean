import TerseDsa.HMap.Calls
import Mathlib.Data.Set.Card

namespace TerseDsa

open Foundation HMap

/-!
# The set of classes that a hash set stands for

Keys that compare equal are one member, so a hash set stands for a set of
classes of keys.  Inserting a key adds its class, taking one removes it, and
retaining by class keeps a part; and since no two entries have equal keys, there
are as many classes as entries.
-/

variable {K V : Type} {self : HMap K} {table : HMapTable K V} {entry : HMapEntry K V} {key : K}
  {val : Option V} {entries before later : List (HMapEntry K V)} {classes : Setoid K}

namespace HSet

/-- The classes of the keys. -/
def classesOf (classes : Setoid K) (entries : List (HMapEntry K V)) : Set (Quotient classes) :=
  {cls | exists entry, entry ∈ entries ∧ Assoc.cls classes entry.key = cls}

theorem mem_classesOf (member : entry ∈ entries) :
    Assoc.cls classes entry.key ∈ classesOf classes entries :=
  ⟨entry, member, rfl⟩

theorem classesOf_nil : classesOf classes ([] : List (HMapEntry K V)) = ∅ := by
  ext cls
  constructor
  · rintro ⟨entry, member, _⟩
    exact absurd member List.not_mem_nil
  · exact fun impossible => absurd impossible (Set.notMem_empty cls)

theorem classesOf_cons : classesOf classes (entry :: entries) =
    Insert.insert (Assoc.cls classes entry.key) (classesOf classes entries) := by
  ext cls
  constructor
  · rintro ⟨other, member, rfl⟩
    rcases List.mem_cons.mp member with rfl | inside
    · exact Set.mem_insert _ _
    · exact Set.mem_insert_of_mem _ (mem_classesOf inside)
  · rintro (rfl | ⟨other, member, rfl⟩)
    · exact mem_classesOf List.mem_cons_self
    · exact mem_classesOf (List.mem_cons_of_mem _ member)

theorem classesOf_perm (perm : later.Perm before) : classesOf classes later = classesOf classes before := by
  ext cls
  exact exists_congr fun _ => and_congr_left fun _ => perm.mem_iff

theorem classesOf_snoc : classesOf classes (entries ++ [entry]) =
    Insert.insert (Assoc.cls classes entry.key) (classesOf classes entries) :=
  (classesOf_perm (List.perm_append_singleton entry entries)).trans classesOf_cons

theorem classesOf_finite : (classesOf classes entries).Finite := by
  induction entries with
  | nil =>
      rw [classesOf_nil]
      exact Set.finite_empty
  | cons entry rest ih =>
      rw [classesOf_cons]
      exact ih.insert _

section Lawful

variable (compares : Compares self classes) (lawful : Lawful self)

include compares

/-- The class of a key that is apart from all others is not among theirs. -/
theorem cls_notMem (apart : forall other, other ∈ entries -> self.eq key other.key = false) :
    Assoc.cls classes key ∉ classesOf classes entries := by
  rintro ⟨other, member, same⟩
  have equal := (compares key other.key).mp same.symm
  rw [apart other member] at equal
  cases equal

theorem ncard_classesOf (keyed : Keyed self entries) :
    (classesOf classes entries).ncard = entries.length := by
  induction entries with
  | nil =>
      rw [classesOf_nil, Set.ncard_empty]
      rfl
  | cons entry rest ih =>
      have apart := List.pairwise_cons.mp keyed.apart
      rw [classesOf_cons, Set.ncard_insert_of_notMem (cls_notMem compares apart.1) classesOf_finite,
        ih (keyed.sublist (List.sublist_cons_self entry rest)), List.length_cons]

include lawful

/-- An entry is the one looked for exactly if its key is of that class. -/
theorem isEntry_iff (keyed : Keyed self entries) (member : entry ∈ entries) :
    isEntry self key (self.hasher key) entry = true <->
      Assoc.cls classes entry.key = Assoc.cls classes key := by
  rw [keyed.isEntry_eq lawful member]
  exact (compares _ _).symm

/-- A lookup finds a key exactly if its class is there. -/
theorem entryFor_isSome_iff (shape : Shape self table) (keyed : Keyed self table.flatten) :
    (entryFor self table key).isSome = true <->
      Assoc.cls classes key ∈ classesOf classes table.flatten := by
  constructor
  · intro some_
    rcases Option.isSome_iff_exists.mp some_ with ⟨entry, found⟩
    rcases (entryFor_iff shape lawful keyed).mp found with ⟨member, same⟩
    exact ⟨entry, member, (compares _ _).mpr same⟩
  · rintro ⟨entry, member, same⟩
    have found := (entryFor_iff shape lawful keyed).mpr
      ⟨member, (compares _ _).mp same⟩
    rw [found]
    rfl

/-! ## What the operations do to the classes -/

/-- Inserting adds the class, and keeps the entries as they are. -/
theorem inserts_classes (keyed : Keyed self before) (noVal : self.val.size = 0)
    (distinct : (addrs before).Nodup) {isNew : Option Bool}
    (inserts : Inserts self key val before (.ok, isNew) later) :
    classesOf classes later = Insert.insert (Assoc.cls classes key) (classesOf classes before) ∧
      forall entry, entry ∈ before -> entry ∈ later := by
  cases inserts with
  | replaced entry member found =>
      have same := (isEntry_iff compares lawful keyed member).mp found
      rw [assigned, if_neg (by omega), map_overwrite_self distinct member]
      refine ⟨?_, fun _ => id⟩
      rw [← same, Set.insert_eq_of_mem (mem_classesOf member)]
  | added entry _ absent perm sameHash sameKey sameVal =>
      subst sameKey
      exact ⟨(classesOf_perm perm).trans classesOf_cons,
        fun other inside => perm.mem_iff.mpr (List.mem_cons_of_mem _ inside)⟩

/-- A refused insertion keeps the entries, and the class is not there. -/
theorem refused_classes (keyed : Keyed self before) {isNew : Option Bool}
    (inserts : Inserts self key val before (.errNoMem, isNew) later) :
    later.Perm before ∧ Assoc.cls classes key ∉ classesOf classes later := by
  cases inserts with
  | refused _ absent perm =>
      refine ⟨perm, ?_⟩
      rw [classesOf_perm perm]
      rintro ⟨other, member, same⟩
      have found := (isEntry_iff compares lawful keyed member).mpr same
      rw [absent other member] at found
      cases found

/-- Taking removes the class, and keeps the entries of every other one. -/
theorem takes_classes (keyed : Keyed self before) {out : Bool × Option (K × Option V)}
    (takes : Takes self key before out later) :
    (out.1 = true <-> Assoc.cls classes key ∈ classesOf classes before) ∧
      classesOf classes later = classesOf classes before \ {Assoc.cls classes key} ∧
      forall entry, entry ∈ before -> Assoc.cls classes entry.key ≠ Assoc.cls classes key ->
        entry ∈ later := by
  cases takes with
  | taken entry left right found split =>
      subst split
      have member : entry ∈ left ++ entry :: right := List.mem_append_right _ List.mem_cons_self
      have same := (isEntry_iff compares lawful keyed member).mp found
      have perm : (left ++ entry :: right).Perm (entry :: (left ++ right)) := List.perm_middle
      have others := keyed.perm lawful perm.symm
      have notIn := cls_notMem compares (List.pairwise_cons.mp others.apart).1
      refine ⟨⟨fun _ => same ▸ mem_classesOf member, fun _ => rfl⟩, ?_, ?_⟩
      · rw [classesOf_perm perm, classesOf_cons, ← same, Set.insert_sdiff_self_of_notMem notIn]
      · intro other inside different
        rcases List.mem_cons.mp (perm.mem_iff.mp inside) with rfl | there
        · exact absurd same different
        · exact there
  | absent missing =>
      have notIn : Assoc.cls classes key ∉ classesOf classes before := by
        rintro ⟨other, member, same⟩
        have found := (isEntry_iff compares lawful keyed member).mpr same
        rw [missing other member] at found
        cases found
      refine ⟨⟨fun impossible => (by cases impossible), fun member => absurd member notIn⟩, ?_,
        fun _ inside _ => inside⟩
      rw [Set.sdiff_singleton_eq_self notIn]

end Lawful

theorem takes_absent {given : Option (K × Option V)} (takes : Takes self key before (false, given) later) :
    later = before := by
  cases takes
  rfl

theorem inserts_length {out : Status × Option Bool} (inserts : Inserts self key val before out later) :
    later.length ≤ before.length + 1 := by
  cases inserts with
  | replaced entry member found =>
      rw [List.length_map]
      exact Nat.le_succ _
  | added entry _ absent perm sameHash sameKey sameVal => exact Nat.le_of_eq perm.length_eq
  | refused _ absent perm => exact Nat.le_succ_of_le (Nat.le_of_eq perm.length_eq)

/-- Asking by the key alone and without state filters. -/
theorem retained_eq_filter (answer : K -> Bool) :
    (retained (fun key _ _ => (answer key, ())) () entries).1 =
      entries.filter fun entry => answer entry.key := by
  induction entries with
  | nil => rfl
  | cons entry rest ih =>
      unfold retained at ih ⊢
      simp only [sift]
      rw [ih, List.filter_cons]

/-- Where the class decides about a key, the entries kept are those of some classes. -/
theorem classesOf_filter {answer : K -> Bool} {kept : Set (Quotient classes)}
    (decides : forall key, answer key = true <-> Assoc.cls classes key ∈ kept) :
    classesOf classes (entries.filter fun entry => answer entry.key) =
      classesOf classes entries ∩ kept := by
  ext cls
  constructor
  · rintro ⟨entry, member, rfl⟩
    rcases List.mem_filter.mp member with ⟨inside, passes⟩
    exact ⟨mem_classesOf inside, (decides _).mp passes⟩
  · rintro ⟨⟨entry, member, rfl⟩, inside⟩
    exact mem_classesOf (List.mem_filter.mpr ⟨member, (decides _).mpr inside⟩)

/-! ## A set changed by the keys of another -/

end HSet

namespace PairOp

/-- The operation on sets. -/
def on {α : Type} : PairOp -> Set α -> Set α -> Set α
  | union, mine, theirs => mine ∪ theirs
  | intersection, mine, theirs => mine ∩ theirs
  | difference, mine, theirs => mine \ theirs
  | symmetricDifference, mine, theirs => symmDiff mine theirs

end PairOp

namespace HSet

/-- After the keys `passed`: the classes are those that the operation gives, and
the entries of those classes that were there are there still. -/
structure Edited (classes : Setoid K) (op : PairOp) (passed start now : List (HMapEntry K V)) : Prop where
  members : classesOf classes now = op.on (classesOf classes start) (classesOf classes passed)
  kept : forall entry, entry ∈ start -> Assoc.cls classes entry.key ∈ classesOf classes now -> entry ∈ now
  length : now.length ≤ start.length + passed.length

namespace Edited

variable {passed start : List (HMapEntry K V)} {op : PairOp}

theorem refl (neutral : op.on (classesOf classes start) ∅ = classesOf classes start) :
    Edited classes op [] start start := by
  refine ⟨?_, fun _ inside _ => inside, Nat.le_refl _⟩
  rw [classesOf_nil, neutral]

theorem perm (edited : Edited classes op passed start before) (same : later.Perm before) :
    Edited classes op passed start later :=
  ⟨(classesOf_perm same).trans edited.members,
    fun entry inside here => same.mem_iff.mpr (edited.kept entry inside (classesOf_perm same ▸ here)),
    same.length_eq ▸ edited.length⟩

section Lawful

variable (compares : Compares self classes) (lawful : Lawful self) (keyed : Keyed self before)

include compares lawful keyed

theorem unite (edited : Edited classes .union passed start before) (noVal : self.val.size = 0)
    (distinct : (addrs before).Nodup) {isNew : Option Bool}
    (inserts : Inserts self entry.key val before (.ok, isNew) later) :
    Edited classes .union (passed ++ [entry]) start later := by
  rcases inserts_classes compares lawful keyed noVal distinct inserts with ⟨added, all⟩
  constructor
  · rw [added, edited.members, classesOf_snoc]
    exact Set.union_insert.symm
  · intro other inside _
    refine all other (edited.kept other inside ?_)
    rw [edited.members]
    exact Or.inl (mem_classesOf inside)
  · have one := inserts_length inserts
    have before_ := edited.length
    rw [List.length_append, List.length_singleton]
    omega

theorem remove (edited : Edited classes .difference passed start before)
    {out : Bool × Option (K × Option V)} (takes : Takes self entry.key before out later) :
    Edited classes .difference (passed ++ [entry]) start later := by
  rcases takes_classes compares lawful keyed takes with ⟨_, removed, others⟩
  constructor
  · rw [removed, edited.members, classesOf_snoc]
    ext cls
    simp only [PairOp.on, Set.mem_sdiff, Set.mem_singleton_iff, Set.mem_insert_iff]
    tauto
  · intro other inside here
    rw [removed] at here
    exact others other (edited.kept other inside here.1) here.2
  · have fewer := (takes_sublist takes).length_le
    have before_ := edited.length
    rw [List.length_append, List.length_singleton]
    omega

/-- A key that is there goes. -/
theorem flipOut (edited : Edited classes .symmetricDifference passed start before)
    (fresh : Assoc.cls classes entry.key ∉ classesOf classes passed)
    {given : Option (K × Option V)} (takes : Takes self entry.key before (true, given) later) :
    Edited classes .symmetricDifference (passed ++ [entry]) start later := by
  rcases takes_classes compares lawful keyed takes with ⟨was, removed, others⟩
  have there := was.mp rfl
  constructor
  · rw [removed]
    rw [edited.members] at there ⊢
    rw [classesOf_snoc]
    ext cls
    simp only [PairOp.on, Set.mem_symmDiff, Set.mem_sdiff, Set.mem_singleton_iff, Set.mem_insert_iff] at there ⊢
    by_cases same : cls = Assoc.cls classes entry.key
    · subst same
      tauto
    · tauto
  · intro other inside here
    rw [removed] at here
    exact others other (edited.kept other inside here.1) here.2
  · have fewer := (takes_sublist takes).length_le
    have before_ := edited.length
    rw [List.length_append, List.length_singleton]
    omega

/-- A key that is not there comes. -/
theorem flipIn (edited : Edited classes .symmetricDifference passed start before)
    (fresh : Assoc.cls classes entry.key ∉ classesOf classes passed)
    (missing : Assoc.cls classes entry.key ∉ classesOf classes before)
    (noVal : self.val.size = 0) (distinct : (addrs before).Nodup) {isNew : Option Bool}
    (inserts : Inserts self entry.key val before (.ok, isNew) later) :
    Edited classes .symmetricDifference (passed ++ [entry]) start later := by
  rcases inserts_classes compares lawful keyed noVal distinct inserts with ⟨added, all⟩
  constructor
  · rw [added]
    rw [edited.members] at missing ⊢
    rw [classesOf_snoc]
    ext cls
    simp only [PairOp.on, Set.mem_symmDiff, Set.mem_insert_iff] at missing ⊢
    by_cases same : cls = Assoc.cls classes entry.key
    · subst same
      tauto
    · tauto
  · intro other inside here
    refine all other (edited.kept other inside ?_)
    rw [added] at here
    refine here.resolve_left fun same => missing ?_
    -- the key was in the set from the start, and no key of its class has passed
    rw [edited.members, ← same]
    exact Or.inl ⟨mem_classesOf inside, same ▸ fresh⟩
  · have one := inserts_length inserts
    have before_ := edited.length
    rw [List.length_append, List.length_singleton]
    omega

end Lawful

/-- Retaining by class is an intersection or a difference. -/
theorem of_filter (answer : K -> Bool) (kept : Set (Quotient classes))
    (decides : forall key, answer key = true <-> Assoc.cls classes key ∈ kept)
    (same : classesOf classes start ∩ kept = op.on (classesOf classes start) (classesOf classes passed)) :
    Edited classes op passed start (start.filter fun entry => answer entry.key) := by
  refine ⟨(classesOf_filter decides).trans same, ?_, ?_⟩
  · intro entry inside here
    rw [classesOf_filter decides] at here
    exact List.mem_filter.mpr ⟨inside, (decides _).mpr here.2⟩
  · exact Nat.le_trans (List.length_filter_le _ _) (Nat.le_add_right _ _)

end Edited

/-- How far an operation got: through all the keys, or up to one that is not there and was refused. -/
structure Reached (classes : Setoid K) (op : PairOp) (st : Status) (theirs start now : List (HMapEntry K V)) :
    Prop where
  done : st = .ok -> Edited classes op theirs start now
  stopped : st ≠ .ok -> exists passed entry rest, theirs = passed ++ entry :: rest ∧
    Edited classes op passed start now ∧ Assoc.cls classes entry.key ∉ classesOf classes now

namespace Reached

variable {passed rest theirs start now : List (HMapEntry K V)} {op : PairOp}

theorem of_done (edited : Edited classes op theirs start now) : Reached classes op .ok theirs start now :=
  ⟨fun _ => edited, fun impossible => absurd rfl impossible⟩

theorem of_refused (compares : Compares self classes) (lawful : Lawful self) (keyed : Keyed self before)
    (split : theirs = passed ++ entry :: rest) (edited : Edited classes op passed start before) {isNew : Option Bool}
    (inserts : Inserts self entry.key val before (.errNoMem, isNew) later) :
    Reached classes op .errNoMem theirs start later := by
  rcases refused_classes compares lawful keyed inserts with ⟨perm, missing⟩
  exact ⟨fun impossible => (by cases impossible), fun _ => ⟨passed, entry, rest, split, edited.perm perm, missing⟩⟩

end Reached
end HSet
end TerseDsa
