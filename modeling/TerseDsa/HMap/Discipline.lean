import TerseDsa.HMap.Ownership

namespace TerseDsa

open Foundation Run HMap

/-!
# The discipline of a whole program

What the invariant of reachable states says about every map of a program: how
its array, its nodes and its counts stand, that room which was reserved is
used without another array, and that memory goes back where it came from.
-/

variable {K V C : Type} {s : HMapObjects K V} {obj : Nat}

/-! ## Programs that make a few calls -/

/-- The objects before the first call. -/
def HMapObjects.blank (answers : Nat -> Option Addr) : HMapObjects K V := ⟨fun _ => inert, ⟨fun _ => none, answers, 0⟩⟩

/-- The objects after a call. -/
def HMapObjects.after (s : HMapObjects K V) (call : Call K V C) : HMapObjects K V := ((call.run s).map Prod.snd).getD s

theorem Reachable.after (reachable : Reachable C s) (call : Call K V C) (allowed : call.Allowed s) :
    Reachable C (s.after call) := by
  rcases reachable.invariant with ⟨tables, invariant⟩
  rcases invariant.run call allowed with ⟨st, later, ran, _⟩
  have same : s.after call = later := by
    rw [HMapObjects.after, ran]
    rfl
  rw [same]
  exact reachable.call call allowed ran

/-- Keys that are compared by `==` can be hashed in any way. -/
theorem lawful_beq {map : HMap Nat} (eqs : map.eq = fun left right => left == right) : Lawful map where
  equivalence := by
    rw [eqs]
    exact ⟨fun _ => beq_self_eq_true _, fun same => beq_iff_eq.mpr (beq_iff_eq.mp same).symm,
      fun first second => beq_iff_eq.mpr ((beq_iff_eq.mp first).trans (beq_iff_eq.mp second))⟩
  hash := by
    rw [eqs]
    exact fun _ _ same => congrArg _ (beq_iff_eq.mp same)

/-- A map of numbers is made. -/
def oneMap (hasher : Nat -> Hash) (answers : Nat -> Option Addr) : HMapObjects Nat Nat :=
  (HMapObjects.blank answers).after (C := Unit) (Call.init 0 ⟨8, 8⟩ ⟨4, 4⟩ hasher (fun left right => left == right) (some 0))

theorem oneMap_reachable (hasher : Nat -> Hash) (answers : Nat -> Option Addr) : Reachable C (oneMap hasher answers) :=
  (Reachable.start answers).after (Call.init 0 ⟨8, 8⟩ ⟨4, 4⟩ hasher (fun left right => left == right) (some 0))
    ⟨rfl, ⟨⟨32, 8⟩, 16, 24, ⟨by decide, by decide, by decide, by decide⟩⟩, by decide⟩

/-- It hashes all keys alike, and gets one. -/
def oneEntry (answers : Nat -> Option Addr) : HMapObjects Nat Nat :=
  (oneMap (fun _ => 0) answers).after (C := Unit) (Call.map 0 (.insert 1 5))

/-- Two keys, which are in one chain. -/
def crowded (answers : Nat -> Option Addr) : HMapObjects Nat Nat :=
  (oneEntry answers).after (C := Unit) (Call.map 0 (.insert 2 6))

theorem crowded_reachable {answers : Nat -> Option Addr} (made : ((oneMap (fun _ => 0) answers).objs 0).al.isSome = true)
    (kept : ((oneEntry answers).objs 0).al.isSome = true) : Reachable C (crowded answers) :=
  ((oneMap_reachable _ _).after (Call.map 0 (.insert 1 5)) ⟨made, trivial⟩).after (Call.map 0 (.insert 2 6)) ⟨kept, trivial⟩

/-! ## Memory -/

/-- A call gives back only live blocks, each to the allocator and under the
layout it came from, since a run that did anything else would not end; when no
object is initialised nothing is live; and a constructor that fails leaves the
objects and the live blocks as they were. -/
theorem Reachable.allocations (reachable : Reachable C s) :
    (forall call : Call K V C, call.Allowed s ->
      Ends call.run s fun _ later => Reachable C later) ∧
    (forall obj, Ends (Call.deinit (V := V) (C := C) obj).run s fun _ later =>
      later.objs obj = inert) ∧
    ((forall obj, (s.objs obj).al = none) -> forall addr, s.mem.blocks addr = none) ∧
    forall (out : Nat) (maker : Maker K V), (Call.make (C := C) out maker).Allowed s ->
      Ends (Call.make (C := C) out maker).run s fun st later =>
        st ≠ .ok -> later.objs = s.objs ∧ later.mem.blocks = s.mem.blocks := by
  rcases reachable.invariant with ⟨tables, invariant⟩
  refine ⟨?_, ?_, ?_, ?_⟩
  · intro call allowed
    rcases invariant.run call allowed with ⟨st, later, ran, _⟩
    exact ⟨st, later, ran, reachable.call call allowed ran⟩
  · intro obj
    simp only [Call.run, ends_bind, Objects.ends_load, Objects.ends_within]
    refine invariant.deinitialised obj ?_
    intro later _
    simp only [Objects.ends_store, ends_pure]
    exact Function.update_self _ _ _
  · intro idle
    refine invariant.division.nothing_live fun obj => ?_
    have held := invariant.heldBy obj
    have bare : (s.objs obj).buckets = none := by
      rw [held.idle (idle obj)]
      rfl
    change owned (s.objs obj) (tables obj) = []
    rw [held.rep.none_iff.mp bare, owned, bare]
    rfl
  · intro out maker allowed
    simp only [Call.run, ends_bind]
    refine (invariant.made maker allowed.2).mono ?_
    rintro result later ⟨sameMaps, built⟩
    exact (invariant.filled allowed.1 sameMaps built).mono fun _ _ => And.right

/-- Grants the array and two nodes of one map, and an array and a node of another. -/
def fiveGrants (request : Nat) : Option Addr := if request < 5 then some request else none

/-- The copy of a map is refused its second node, when it has an array and a node, and leaves no trace; and when
the map itself is deinitialised nothing is live. -/
theorem Reachable.allocations_refused :
    (exists later, (Call.make (C := Unit) 1 (.copy 0)).run (crowded fiveGrants) = some (.errNoMem, later) ∧
      later.mem.asked = 6 ∧ later.objs = (crowded fiveGrants).objs ∧
      later.mem.blocks = (crowded fiveGrants).mem.blocks) ∧
    ((crowded fiveGrants).mem.blocks 0).isSome = true ∧
    forall addr, ((crowded fiveGrants).after (C := Unit) (Call.deinit 0)).mem.blocks addr = none := by
  have reachable : Reachable Unit (crowded fiveGrants) := crowded_reachable rfl rfl
  have whole := Reachable.allocations reachable
  refine ⟨?_, rfl, ?_⟩
  · have ran : ((Call.make (C := Unit) 1 (.copy 0)).run (crowded fiveGrants)).map
        (fun out => (out.1, out.2.mem.asked)) = some (.errNoMem, 6) := rfl
    rcases Option.map_eq_some_iff.mp ran with ⟨⟨st, later⟩, same, fields⟩
    rcases Prod.mk.inj fields with ⟨rfl, asked⟩
    have kept := (whole.2.2.2 1 (.copy 0) ⟨rfl, rfl⟩).of_eq same (by decide)
    exact ⟨later, same, asked, kept.1, kept.2⟩
  · refine (Reachable.allocations (reachable.after (Call.deinit 0) trivial)).2.2.1 ?_
    rintro (_ | obj)
    · rfl
    · rfl

/-! ## The representation -/

/-- How a map stands over the chains that its array and its nodes spell out. -/
structure WellFormed (map : HMap K) (heap : HMapMem K V) (table : HMapTable K V) : Prop where
  rep : Rep heap.blocks map table
  chains : table.length = map.bucketCount
  array : (map.bucketCount = 0 ∧ map.buckets = none) ∨
    (map.buckets.isSome = true ∧ exists k, 3 ≤ k ∧ map.bucketCount = 2 ^ k)
  placed : forall (idx : Nat) (chain : List (HMapEntry K V)), table[idx]? = some chain ->
    forall entry, entry ∈ chain -> entry.hash = map.hasher entry.key ∧
      Ends (bucketIn entry.hash map.bucketCount) heap (fun bucket later =>
        bucket = idx ∧ later = heap) ∧ idx < map.bucketCount
  once : (addrs table.flatten).Nodup
  apart : table.flatten.Pairwise fun left right => map.eq left.key right.key = false
  len : map.len = table.flatten.length
  load : map.len ≤ map.bucketCount
  next : wrapAdd map.len 1 = map.len + 1
  shift : map.bucketCount ≠ 0 ->
    1 ≤ 64 - bitCtz map.bucketCount ∧ 64 - bitCtz map.bucketCount ≤ 63

/-- The next so many insertions, each of a key that is there already or while
there are fewer than `room` entries, leave the bucket array in place. -/
def Roomy (room : Nat) (array : Option Addr) (count : Nat) :
    Nat -> HMap K -> HMapMem K V -> Prop
  | 0, _, _ => True
  | more + 1, map, heap =>
      forall (key : K) (val : Option V), val.isSome = true ∨ map.val.size = 0 ->
        Ends (contains (V := V) map key) heap
          (fun found _ => found = true ∨ map.len < room) ->
        Ends (insert map key val) heap (fun result later =>
          result.2.2.buckets = array ∧ result.2.2.bucketCount = count ∧
            Roomy room array count more result.2.2 later) ∧
        Ends (getOrInsert map key val) heap (fun result later =>
          result.2.2.buckets = array ∧ result.2.2.bucketCount = count ∧
            Roomy room array count more result.2.2 later)

section Room

variable {heap : HMapMem K V} {map : HMap K} {table : HMapTable K V} {room : Nat}

/-- An insertion that has room, or finds its key, keeps the array. -/
theorem HMap.Widens.keeps {after : HMap K} {key : K} (widens : Widens map after)
    (found : (lookup map table key (map.hasher key)).isSome = true -> after = map)
    (enough : room ≤ map.bucketCount)
    (fits : (entryFor map table key).isSome = true ∨ map.len < room) :
    after.buckets = map.buckets ∧ after.bucketCount = map.bucketCount := by
  rcases fits with present | room_
  · rw [found present]
    exact ⟨rfl, rfl⟩
  · exact widens.stays (Nat.lt_of_lt_of_le room_ enough)

theorem roomy (rep : Rep heap.blocks map table) (shape : Shape map table)
    (enough : room ≤ map.bucketCount) (more : Nat) :
    Roomy room map.buckets map.bucketCount more map heap := by
  induction more generalizing heap map table with
  | zero => exact trivial
  | succ more ih =>
      intro key val given asked
      have fits : (entryFor map table key).isSome = true ∨ map.len < room := by
        have answer : Ends (contains (V := V) map key) heap fun found _ =>
            found = (entryFor map table key).isSome := ends_contains rep shape rfl
        rcases asked.and answer with ⟨_, _, _, first, rfl⟩
        exact first
      have again : forall (after : HMap K) (changed : HMapTable K V) (later : HMapMem K V),
          Steps heap.blocks later.blocks map after table changed -> Widens map after ->
          ((lookup map table key (map.hasher key)).isSome = true -> after = map) ->
          after.buckets = map.buckets ∧ after.bucketCount = map.bucketCount ∧
            Roomy room map.buckets map.bucketCount more after later := by
        intro after changed later steps widens found
        have ⟨buckets, count⟩ := widens.keeps found enough fits
        have onward := ih steps.rep steps.shape (by rw [count]; exact enough)
        rw [buckets, count] at onward
        exact ⟨buckets, count, onward⟩
      constructor
      · refine ends_insert rep shape given ?_
        intro _ after changed later steps widens found _
        exact again after changed later steps widens found
      · refine ends_getOrInsert rep shape given ?_
        intro _ after changed later steps widens found _
        exact again after changed later steps widens found

end Room

theorem Held.wellFormed {map : HMap K} {heap : HMapMem K V} {table : HMapTable K V}
    (held : Held heap.blocks map table) (real : map.al.isSome = true) (lawful : Lawful map) :
    WellFormed map heap table := by
  have shape := held.shape real
  have keyed := held.keyed lawful
  have good : table.length ≠ 0 -> GoodCount table.length := shape.power.resolve_left
  have small := shape.len_lt
  refine ⟨held.rep, shape.count.symm, ?_, ?_, held.rep.distinct, keyed.apart, shape.len, ?_, ?_, ?_⟩
  · rcases shape.power with empty | ⟨k, three, _, power⟩
    · exact Or.inl ⟨shape.count.trans empty,
        held.rep.none_iff.mpr (List.length_eq_zero_iff.mp empty)⟩
    · refine Or.inr ⟨?_, k, three, shape.count.trans power⟩
      rw [Option.isSome_iff_ne_none, Ne, held.rep.none_iff, ← List.length_eq_zero_iff, power]
      exact (Nat.two_pow_pos k).ne'
  · intro idx chain atTable entry member
    have inside : idx < table.length := (List.getElem?_eq_some_iff.mp atTable).1
    rcases good (Nat.ne_zero_of_lt inside) with ⟨k, three, _, power⟩
    have above : 1 < table.length := by
      rw [power]
      exact Nat.one_lt_two_pow (by omega)
    refine ⟨keyed.hashed entry (mem_flatten_of_bucket atTable member), ?_, ?_⟩
    · rw [shape.count]
      simp only [bucketIn, ends_bind, ends_require, ends_pure, and_true]
      exact ⟨⟨by rw [power, isPow2_two_pow], above⟩, shape.placed idx chain atTable entry member⟩
    · rw [shape.count]
      exact inside
  · rw [shape.len, shape.count]
    exact shape.load
  · exact wrapAdd_eq (by unfold sizeRange; omega)
  · intro some_
    rw [shape.count] at some_ ⊢
    rcases good some_ with ⟨k, three, below, power⟩
    rw [power, bitCtz_two_pow (by omega)]
    omega

/-- Every map of a reachable state is well formed, and what `reserve` made
room for is inserted without another bucket array. -/
theorem Reachable.represented (reachable : Reachable C s)
    (real : (s.objs obj).al.isSome = true) (lawful : Lawful (s.objs obj)) :
    (exists table, WellFormed (s.objs obj) s.mem table) ∧
    forall newCap, Ends (reserve (s.objs obj) newCap) s.mem (fun result later =>
      result.1 = .ok -> forall more, Roomy (max newCap (s.objs obj).bucketCount) result.2.buckets
        result.2.bucketCount more result.2 later) := by
  rcases reachable.invariant with ⟨tables, invariant⟩
  have held := invariant.heldBy obj
  refine ⟨⟨tables obj, held.wellFormed real lawful⟩, fun newCap => ?_⟩
  refine ends_reserve held.rep (held.shape real) ?_ ?_
  · exact fun _ _ impossible => by cases impossible
  · exact fun after changed later steps _ enough _ more => roomy steps.rep steps.shape enough more

/-- Two entries in one chain, and then room for twenty. -/
theorem Reachable.represented_crowded :
    ((crowded some).objs 0).len = 2 ∧ (exists table, WellFormed ((crowded some).objs 0) (crowded some).mem table) ∧
    exists after later, reserve ((crowded some).objs 0) 20 (crowded some).mem = some ((.ok, after), later) ∧
      after.bucketCount = 32 ∧ forall more, Roomy 20 after.buckets 32 more after later := by
  have represented := Reachable.represented (C := Unit) (crowded_reachable rfl rfl)
    (show ((crowded some).objs 0).al.isSome = true from rfl) (lawful_beq rfl)
  refine ⟨rfl, represented.1, ?_⟩
  have ran : (reserve ((crowded some).objs 0) 20 (crowded some).mem).map (fun out => (out.1.1, out.1.2.bucketCount)) =
      some (.ok, 32) := rfl
  rcases Option.map_eq_some_iff.mp ran with ⟨⟨⟨st, after⟩, later⟩, same, fields⟩
  rcases Prod.mk.inj fields with ⟨rfl, count⟩
  have roomy := (represented.2 20).of_eq same rfl
  dsimp only at count roomy
  rw [count] at roomy
  exact ⟨after, later, same, count, roomy⟩

end TerseDsa
