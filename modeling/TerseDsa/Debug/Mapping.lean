import TerseDsa.Debug.Slots

namespace TerseDsa

open Foundation Run
open Function (update update_self update_of_ne update_eq_self)

/-!
# The table as a map

What a table stands for is told by the calls that led to it: a map from
addresses to records that is written by every record put in and loses those
taken out.  The table answers as the map does, for any hash and whichever of
its requests for more slots are refused.
-/

namespace BlockTable

variable {S : Type} {hash : Nat -> Nat} {map : Nat -> Option BlockRecord} {table after : BlockTable}
  {records : List BlockRecord} {record entry : BlockRecord} {addr : Nat} {default later : DefaultAl}

/-- The tables that the empty one becomes, each with its map and the allocator behind it. -/
inductive Reached (hash : Nat -> Nat) : (map : Nat -> Option BlockRecord) -> (table : BlockTable) ->
    (default : DefaultAl) -> Prop where
  | inert (default : DefaultAl) : Reached hash (fun _ => none) inert default
  | insert {map : Nat -> Option BlockRecord} {table after : BlockTable} {default later : DefaultAl}
      {entry : BlockRecord} {inserted : Bool} (reached : Reached hash map table default) (real : entry.addr ≠ 0)
      (absent : map entry.addr = none) (ran : table.insertBy hash entry default = some ((inserted, after), later)) :
      Reached hash (if inserted then update map entry.addr (some entry) else map) after later
  | find {map : Nat -> Option BlockRecord} {table : BlockTable} {default later : DefaultAl} {addr : Nat}
      {found : Option BlockRecord} (reached : Reached hash map table default)
      (ran : table.findBy hash addr default = some (found, later)) : Reached hash map table later
  | take {map : Nat -> Option BlockRecord} {table after : BlockTable} {default later : DefaultAl} {addr : Nat}
      {taken : Option BlockRecord} (reached : Reached hash map table default)
      (ran : table.takeBy hash addr default = some ((taken, after), later)) :
      Reached hash (update map addr none) after later

/-! ## The records of a map -/

/-- The map is that of the records. -/
def Lists (map : Nat -> Option BlockRecord) (records : List BlockRecord) : Prop :=
  forall addr record, map addr = some record <-> record ∈ records ∧ record.addr = addr

namespace Lists

variable (lists : Lists map records)

include lists

theorem absent_iff : map addr = none <-> forall record, record ∈ records -> record.addr ≠ addr := by
  constructor
  · intro none_ record inside same
    rw [(lists addr record).mpr ⟨inside, same⟩] at none_
    cases none_
  · intro absent
    cases found : map addr with
    | none => rfl
    | some record =>
        rcases (lists addr record).mp found with ⟨inside, same⟩
        exact absurd same (absent record inside)

theorem insert (absent : map entry.addr = none) :
    Lists (update map entry.addr (some entry)) (entry :: records) := by
  intro addr record
  by_cases here : addr = entry.addr
  · subst here
    rw [update_self, Option.some_inj, List.mem_cons]
    constructor
    · rintro rfl
      exact ⟨Or.inl rfl, rfl⟩
    · rintro ⟨rfl | inside, same⟩
      · rfl
      · exact absurd same (lists.absent_iff.mp absent record inside)
  · rw [update_of_ne here, lists addr record, List.mem_cons]
    constructor
    · exact fun both => ⟨Or.inr both.1, both.2⟩
    · rintro ⟨rfl | inside, same⟩
      · exact absurd same.symm here
      · exact ⟨inside, same⟩

theorem erase (distinct : (records.map BlockRecord.addr).Nodup) (inside : entry ∈ records) :
    Lists (update map entry.addr none) (records.erase entry) := by
  have nodup : records.Nodup := List.Nodup.of_map _ distinct
  intro addr record
  rw [nodup.mem_erase_iff]
  by_cases here : addr = entry.addr
  · subst here
    rw [update_self]
    constructor
    · exact fun impossible => nomatch impossible
    · rintro ⟨⟨different, also⟩, same⟩
      exact absurd (List.inj_on_of_nodup_map distinct also inside same) different
  · rw [update_of_ne here, lists addr record]
    constructor
    · rintro ⟨also, same⟩
      refine ⟨⟨?_, also⟩, same⟩
      rintro rfl
      exact here same.symm
    · exact fun both => ⟨both.1.2, both.2⟩

end Lists

/-! ## Calls -/

/-- The table shows the records of the map. -/
def Shows (hash : Nat -> Nat) (table : BlockTable) (map : Nat -> Option BlockRecord) : Prop :=
  exists records, HoldsBy hash table records ∧ Lists map records

namespace Shows

variable (shows_ : Shows hash table map)

include shows_

theorem ends_find {s : S} {post : Option BlockRecord -> S -> Prop} (done : post (map addr) s) :
    Ends (table.findBy hash addr) s post := by
  rcases shows_ with ⟨records, holds, lists⟩
  apply holds.ends_find
  · intro record inside same
    rwa [← (lists addr record).mpr ⟨inside, same⟩]
  · intro absent
    rwa [← lists.absent_iff.mpr absent]

theorem ends_take {s : S} {post : Option BlockRecord × BlockTable -> S -> Prop}
    (done : forall after, Shows hash after (update map addr none) -> post (map addr, after) s) :
    Ends (table.takeBy hash addr) s post := by
  rcases shows_ with ⟨records, holds, lists⟩
  apply holds.ends_take
  · intro absent
    have none_ := lists.absent_iff.mpr absent
    have same := done table ⟨records, holds, by rwa [← none_, update_eq_self]⟩
    rwa [none_] at same
  · rintro record after inside rfl held
    have same := done after ⟨_, held, lists.erase holds.distinct inside⟩
    rwa [(lists record.addr record).mpr ⟨inside, rfl⟩] at same

theorem ends_insert (real : entry.addr ≠ 0) (absent : map entry.addr = none)
    {post : Bool × BlockTable -> DefaultAl -> Prop}
    (refused : forall later, table.cap < 2 * (table.len + 1) ->
      DefaultAl.allocZeroed table.newCap default = some (none, later) -> post (false, table) later)
    (inserted : forall after later, Shows hash after (update map entry.addr (some entry)) ->
      post (true, after) later) :
    Ends (table.insertBy hash entry) default post := by
  rcases shows_ with ⟨records, holds, lists⟩
  apply holds.ends_insert real (lists.absent_iff.mp absent) refused
  exact fun after later held => inserted after later ⟨_, held, lists.insert absent⟩

end Shows

/-! ## Runs -/

theorem Reached.shows_ (reached : Reached hash map table default) : Shows hash table map := by
  induction reached with
  | inert default => exact ⟨[], inert_holdsBy, fun addr record => ⟨fun impossible => (nomatch impossible),
      fun both => absurd both.1 List.not_mem_nil⟩⟩
  | @insert map table after default later entry inserted _ real absent ran ih =>
      have ends : Ends (table.insertBy hash entry) default fun result _ =>
          Shows hash result.2 (if result.1 then update map entry.addr (some entry) else map) := by
        apply ih.ends_insert real absent
        · exact fun _ _ _ => ih
        · exact fun _ _ shows_ => shows_
      exact ends.of_eq ran
  | find _ _ ih => exact ih
  | @take map table after default later addr taken _ ran ih =>
      have ends : Ends (table.takeBy hash addr) default fun result _ =>
          Shows hash result.2 (update map addr none) :=
        ih.ends_take fun _ shows_ => shows_
      exact ends.of_eq ran

/-- Every table that is reached has no slots or a power of two of them, at most half of them taken, by the
records of its map and each on an unbroken way from its home.  It answers as its map does, every call ends,
and a record is not put in only if the slots for it are refused; then nothing is changed. -/
theorem Reached.behaves_as_map (reached : Reached hash map table default) :
    ((table.cap = 0 ∨ exists k, table.cap = 2 ^ k) ∧ table.slots.length = table.cap ∧
      table.len = (table.slots.filter occupied).length ∧ 2 * table.len ≤ table.cap ∧
      Lists map (table.slots.filter occupied) ∧ Probed table.cap table.keyAt (table.homeBy hash)) ∧
    (forall addr, Ends (table.findBy hash addr) default fun found later => later = default ∧ found = map addr) ∧
    (forall addr, Ends (table.takeBy hash addr) default fun result later => later = default ∧
      result.1 = map addr ∧ Reached hash (update map addr none) result.2 later) ∧
    forall entry, entry.addr ≠ 0 -> map entry.addr = none ->
      Ends (table.insertBy hash entry) default fun result later =>
        (result.1 = true ∧ Reached hash (update map entry.addr (some entry)) result.2 later) ∨
        (result.1 = false ∧ result.2 = table ∧ table.cap < 2 * (table.len + 1) ∧
          DefaultAl.allocZeroed table.newCap default = some (none, later)) := by
  have shows_ := reached.shows_
  refine ⟨?_, fun addr => shows_.ends_find ⟨rfl, rfl⟩, fun addr => ?_, fun entry real absent => ?_⟩
  · rcases shows_ with ⟨records, holds, lists⟩
    have count := holds.len.trans holds.content.length_eq.symm
    refine ⟨?_, holds.length, count, holds.half, fun addr record => ?_, ?_⟩
    · by_cases used : table.cap = 0
      · exact Or.inl used
      · exact Or.inr (holds.stored used).pow
    · rw [holds.content.mem_iff]
      exact lists addr record
    · by_cases used : table.cap = 0
      · intro place key inside
        omega
      · exact (holds.stored used).probed
  · have answers : Ends (table.takeBy hash addr) default fun result later => later = default ∧ result.1 = map addr :=
      shows_.ends_take fun _ _ => ⟨rfl, rfl⟩
    rcases answers with ⟨result, later, ran, same, taken⟩
    exact ⟨result, later, ran, same, taken, reached.take ran⟩
  · have answers : Ends (table.insertBy hash entry) default fun result later => result.1 = true ∨
        (result.1 = false ∧ result.2 = table ∧ table.cap < 2 * (table.len + 1) ∧
          DefaultAl.allocZeroed table.newCap default = some (none, later)) := by
      apply shows_.ends_insert real absent
      · exact fun later full none_ => Or.inr ⟨rfl, rfl, full, none_⟩
      · exact fun _ _ _ => Or.inl rfl
    rcases answers with ⟨⟨inserted, after⟩, later, ran, yes | refused⟩
    · have after := reached.insert real absent ran
      have yes : inserted = true := yes
      rw [yes, if_pos rfl] at after
      exact ⟨_, later, ran, Or.inl ⟨yes, after⟩⟩
    · exact ⟨_, later, ran, Or.inr refused⟩

/-! ## One home for all -/

/-- Three records are put in, and the first of them is taken out. -/
def crowded : Run DefaultAl BlockTable := do
  let (_, table) ← inert.insertBy (fun _ => 0) ⟨16, ⟨8, 8⟩, 1⟩
  let (_, table) ← table.insertBy (fun _ => 0) ⟨32, ⟨8, 8⟩, 2⟩
  let (_, table) ← table.insertBy (fun _ => 0) ⟨48, ⟨8, 8⟩, 3⟩
  let (_, table) ← table.takeBy (fun _ => 0) 16
  return table

theorem crowded_reached : exists map table later, crowded ⟨fun _ => true, 0⟩ = some (table, later) ∧
    Reached (fun _ => 0) map table later ∧ table.len = 2 ∧
    (map 16, map 32, map 48) = (none, some ⟨32, ⟨8, 8⟩, 2⟩, some ⟨48, ⟨8, 8⟩, 3⟩) := by
  have empty : Reached (fun _ => 0) (fun _ => none) inert ⟨fun _ => true, 0⟩ := .inert _
  have first := @Reached.insert _ _ _ _ _ _ ⟨16, ⟨8, 8⟩, 1⟩ _ empty (by decide) rfl rfl
  have second := @Reached.insert _ _ _ _ _ _ ⟨32, ⟨8, 8⟩, 2⟩ _ first (by decide) rfl rfl
  have third := @Reached.insert _ _ _ _ _ _ ⟨48, ⟨8, 8⟩, 3⟩ _ second (by decide) rfl rfl
  have removed := @Reached.take _ _ _ _ _ _ 16 _ third rfl
  exact ⟨_, _, _, rfl, removed, rfl, rfl⟩

/-- What is left is found, whichever records it was put in behind, and what was taken out is not. -/
theorem behaves_as_map_crowded : Ends (do
    let table ← crowded
    return (table.len, ← table.findBy (fun _ => 0) 16, ← table.findBy (fun _ => 0) 32, ← table.findBy (fun _ => 0) 48))
    ⟨fun _ => true, 0⟩ fun result _ => result = (2, none, some ⟨32, ⟨8, 8⟩, 2⟩, some ⟨48, ⟨8, 8⟩, 3⟩) := by
  rcases crowded_reached with ⟨map, table, later, ran, reached, len, records⟩
  simp only [Prod.mk.injEq] at records
  have finds := reached.behaves_as_map.2.1
  simp only [ends_bind, ends_pure]
  refine ⟨table, later, ran, (finds 16).mono ?_⟩
  rintro _ _ ⟨rfl, rfl⟩
  refine (finds 32).mono ?_
  rintro _ _ ⟨rfl, rfl⟩
  refine (finds 48).mono ?_
  rintro _ _ ⟨rfl, rfl⟩
  rw [len, records.1, records.2.1, records.2.2]

end BlockTable
end TerseDsa
