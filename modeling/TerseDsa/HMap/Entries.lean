import TerseDsa.HMap.Growth

namespace TerseDsa

open Foundation Run

/-!
# Adding entries

What `add_node` and the operations built on it do to the table.  An entry that
is added goes on top of a permutation of the entries that were there, since
the bucket array may have grown before; a refusal leaves the same entries,
possibly in a larger array.
-/

namespace HMap

variable {K V C : Type} {heap : HMapMem K V} {self after : HMap K}
  {table changed : HMapTable K V} {entry : HMapEntry K V} {key : K} {val : Option V}
  {hash : Hash}

/-- The bucket array is only ever replaced by one that is no smaller, and not
at all while there is room for one entry more. -/
structure Widens (map after : HMap K) : Prop where
  grows : map.bucketCount ≤ after.bucketCount
  stays : map.len < map.bucketCount ->
    after.buckets = map.buckets ∧ after.bucketCount = map.bucketCount

theorem Widens.refl : Widens self self := ⟨Nat.le_refl _, fun _ => ⟨rfl, rfl⟩⟩

/-! ## Room -/

theorem ends_reserveBuckets (rep : Rep heap.blocks self table) (shape : Shape self table)
    {cap : Nat} {post : Status × HMap K -> HMapMem K V -> Prop}
    (kept : cap ≤ self.bucketCount -> post (.ok, self) heap)
    (refused : forall later : HMapMem K V, later.blocks = heap.blocks ->
      self.bucketCount < cap -> post (.errNoMem, self) later)
    (grown : forall (after : HMap K) (changed : HMapTable K V) (later : HMapMem K V),
      Steps heap.blocks later.blocks self after table changed -> self.bucketCount < cap ->
      cap ≤ after.bucketCount -> changed.flatten.Perm table.flatten -> post (.ok, after) later) :
    Ends (reserveBuckets self cap) heap post := by
  unfold reserveBuckets
  by_cases enough : cap ≤ self.bucketCount
  · rw [if_pos enough, ends_pure]
    exact kept enough
  · rw [if_neg enough]
    have less : self.bucketCount < cap := Nat.lt_of_not_le enough
    rcases bucketsFor_cases cap with overflow | ⟨k, three, power, fits, _⟩
    · rw [if_pos overflow, ends_pure]
      exact refused heap rfl less
    · have nonzero : bucketsFor cap ≠ 0 := by
        rw [power]
        exact Nat.ne_of_gt (Nat.two_pow_pos k)
      rw [if_neg nonzero]
      have load := shape.load
      have count := shape.count
      refine ends_rehash rep shape three power (by rw [power]; omega)
        (fun later same => refused later same less) ?_
      intro after changed later steps counted perm
      exact grown after changed later steps less (by rw [counted, power]; exact fits) perm

/-- Room for one entry more: refused with nothing changed, or made. -/
theorem ends_reserveOne (rep : Rep heap.blocks self table) (shape : Shape self table)
    {post : Status × HMap K -> HMapMem K V -> Prop}
    (refused : heap.Spared (post (.errNoMem, self)))
    (made : forall (after : HMap K) (changed : HMapTable K V) (later : HMapMem K V),
      Steps heap.blocks later.blocks self after table changed -> Widens self after ->
      self.len < after.bucketCount -> changed.flatten.Perm table.flatten ->
      post (.ok, after) later) :
    Ends (reserveOne self) heap post := by
  have small := shape.len_lt
  have next : wrapAdd self.len 1 = self.len + 1 := wrapAdd_eq (by unfold sizeRange; omega)
  unfold reserveOne
  rw [next]
  refine ends_reserveBuckets rep shape ?_ (fun later same _ => refused later same) ?_
  · intro enough
    exact made self table heap (Steps.refl rep shape) Widens.refl enough (List.Perm.refl _)
  · intro after changed later steps less enough perm
    exact made after changed later steps ⟨by omega, fun room => by omega⟩ enough perm

/-! ## A node for a key that is absent -/

/-- A granted node holds the new entry; nothing links to it yet. -/
theorem ends_allocNode (shape : Shape self table) {post : Option Addr -> HMapMem K V -> Prop}
    (refused : heap.Spared (post none))
    (granted : forall (entry : HMapEntry K V) (later : HMapMem K V),
      entry.hash = hash -> entry.key = key ->
      entry.val = (if self.val.size > 0 then val else none) ->
      heap.blocks entry.addr = none ->
      later.blocks = Function.update heap.blocks entry.addr
        (some ⟨(self.al, self.node), .node (nodeOf entry none)⟩) ->
      post (some entry.addr) later) :
    Ends (allocNode self key val hash) heap post := by
  refine ends_alloc shape.real refused ?_
  intro _ addr later free same
  exact granted ⟨addr, hash, key, if self.val.size > 0 then val else none⟩ later rfl rfl rfl free same

/-- The map and the table with one entry more, filed in the array that is there. -/
theorem steps_of_filed {blocks granted later : Blocks AlTag (HMapCell K V)}
    (rep : Rep blocks self table) (shape : Shape self table) {array : Addr}
    (buckets : self.buckets = some array) (free : blocks entry.addr = none)
    (same : granted = Function.update blocks entry.addr
      (some ⟨(self.al, self.node), .node (nodeOf entry none)⟩))
    (good : GoodCount table.length) (room : self.len < table.length)
    (filed : Filed granted later self.al array table entry) :
    Steps blocks later self { self with len := self.len + 1 } table (place table entry) := by
  have notMine : entry.addr ∉ owned self table := fun mine => rep.live mine free
  have notNode : entry.addr ∉ addrs table.flatten :=
    fun inside => notMine (mem_owned.mpr (Or.inr inside))
  have perm := place_perm good entry
  have addrsPerm : (addrs (place table entry).flatten).Perm (entry.addr :: addrs table.flatten) :=
    perm.map _
  have granted_here : Holds granted (self.al, self.node) entry := by
    rw [same]
    exact Holds.update_self rfl
  have memNew : forall addr, addr ∈ owned { self with len := self.len + 1 } (place table entry) <->
      addr = entry.addr ∨ addr ∈ owned self table := by
    intro addr
    rw [mem_owned, mem_owned, addrsPerm.mem_iff, List.mem_cons]
    exact or_left_comm
  refine ⟨?_, ?_, ?_, rfl⟩
  · refine ⟨?_, ?_, ?_, ?_⟩
    · change self.buckets = none <-> _
      rw [rep.none_iff, ← List.length_eq_zero_iff, ← List.length_eq_zero_iff, place_length]
    · intro other equal
      rw [show self.buckets = _ from equal] at buckets
      cases buckets
      exact filed.slots
    · intro other member
      rcases List.mem_cons.mp (perm.mem_iff.mp member) with equal | inside
      · rw [equal]
        exact filed.holds _ _ granted_here
      · refine filed.holds _ _ ?_
        rw [same]
        refine (rep.holds other inside).update_of_ne ?_
        intro equal
        exact notNode (equal ▸ addr_mem_addrs inside)
    · exact addrsPerm.nodup_iff.mpr (List.nodup_cons.mpr ⟨notNode, rep.distinct⟩)
  · have longer := perm.length_eq
    rw [List.length_cons] at longer
    have len := shape.len
    refine ⟨shape.real, shape.keyType, shape.valType, shape.layout, ?_, ?_, ?_, ?_, ?_⟩
    · rw [place_length]
      exact shape.count
    · rw [place_length]
      exact shape.power
    · exact shape.placedAll.place good
    · change self.len + 1 = _
      omega
    · rw [place_length]
      omega
  · have taken : Evolves blocks granted (owned self table)
        (owned { self with len := self.len + 1 } (place table entry)) := by
      rw [same]
      exact Evolves.of_grant free memNew
    refine taken.trans (Evolves.of_within ?_)
    intro addr outside
    rw [memNew, not_or] at outside
    refine filed.outside addr outside.1 ?_
    rintro rfl
    exact outside.2 (mem_owned.mpr (Or.inl buckets))

/-- `add_node`: refused with the same entries, or one entry more. -/
theorem ends_addNode (rep : Rep heap.blocks self table) (shape : Shape self table)
    {post : Status × Option Addr × HMap K -> HMapMem K V -> Prop}
    (refused : forall (after : HMap K) (changed : HMapTable K V) (later : HMapMem K V),
      Steps heap.blocks later.blocks self after table changed -> Widens self after ->
      changed.flatten.Perm table.flatten -> post (.errNoMem, none, after) later)
    (added : forall (entry : HMapEntry K V) (after : HMap K) (changed : HMapTable K V)
      (later : HMapMem K V),
      Steps heap.blocks later.blocks self after table changed -> Widens self after ->
      changed.flatten.Perm (entry :: table.flatten) -> entry.hash = hash -> entry.key = key ->
      entry.val = (if self.val.size > 0 then val else none) ->
      post (.ok, some entry.addr, after) later) :
    Ends (addNode self key val hash) heap post := by
  simp only [addNode, ends_bind]
  refine ends_reserveOne rep shape ?_ ?_
  · intro later same
    simp only [if_refused, ends_pure]
    exact refused self table later (by rw [same]; exact Steps.refl rep shape) Widens.refl
      (List.Perm.refl _)
  · intro after changed later steps widens room perm
    simp only [if_granted, ends_bind]
    refine ends_allocNode steps.shape ?_ ?_
    · intro last same
      simp only [ends_pure]
      exact refused after changed last (by rw [same]; exact steps) widens perm
    · intro entry granted sameHash sameKey sameVal free same
      have notMine : entry.addr ∉ owned after changed := fun mine => steps.rep.live mine free
      have lenEq : after.len = self.len := by
        rw [steps.shape.len, shape.len, perm.length_eq]
      have roomy : after.len < changed.length := by
        rw [lenEq, ← steps.shape.count]
        exact room
      have good : GoodCount changed.length := by
        rcases steps.shape.power with empty | power
        · omega
        · exact power
      have nonempty : changed ≠ [] := by
        rintro rfl
        exact absurd roomy (Nat.not_lt_zero _)
      rcases Option.ne_none_iff_exists'.mp (steps.rep.none_iff.not.mpr nonempty) with
        ⟨array, buckets⟩
      have here : Holds granted.blocks (after.al, after.node) entry := by
        rw [same]
        exact Holds.update_self rfl
      have rep' : Rep granted.blocks after changed := by
        rw [same]
        exact steps.rep.of_grant free
      rcases rep'.array array buckets with ⟨slots, at_array, chains⟩
      have filing : forall post : Unit -> HMapMem K V -> Prop,
          (forall last : HMapMem K V,
            Filed granted.blocks last.blocks after.al array changed entry -> post () last) ->
          Ends (linkNode after.buckets after.bucketCount entry.addr) granted post := by
        intro post holds
        rw [buckets, steps.shape.count]
        exact ends_linkNode here at_array chains good rep'.distinct
          (fun inside => notMine (mem_owned.mpr (Or.inr inside))) holds
      simp only [ends_bind]
      refine filing _ ?_
      intro last filed
      have more := steps_of_filed steps.rep steps.shape buckets free same good roomy filed
      have small := steps.shape.len_lt
      have next : wrapAdd after.len 1 = after.len + 1 :=
        wrapAdd_eq (by unfold sizeRange; omega)
      rw [next]
      simp only [ends_assertHMap more.asserts, ends_pure]
      refine added entry _ _ last (steps.trans more) ⟨widens.grows, widens.stays⟩
        ((place_perm good entry).trans (perm.cons entry)) sameHash sameKey ?_
      rw [sameVal, show after.val = self.val from steps.val_eq]

/-! ## Overwriting a value -/

/-- The entry at `addr` with another value. -/
def overwrite (addr : Addr) (val : Option V) (entry : HMapEntry K V) : HMapEntry K V :=
  if entry.addr = addr then { entry with val := val } else entry

section Overwrite

variable {addr : Addr}

@[simp] theorem overwrite_addr : (overwrite addr val entry).addr = entry.addr := by
  unfold overwrite
  split <;> rfl

@[simp] theorem overwrite_hash : (overwrite addr val entry).hash = entry.hash := by
  unfold overwrite
  split <;> rfl

@[simp] theorem overwrite_key : (overwrite addr val entry).key = entry.key := by
  unfold overwrite
  split <;> rfl

theorem overwrite_of_ne (different : entry.addr ≠ addr) : overwrite addr val entry = entry :=
  if_neg different

@[simp] theorem addrs_overwrite (entries : List (HMapEntry K V)) :
    addrs (entries.map (overwrite addr val)) = addrs entries := by
  unfold addrs
  rw [List.map_map]
  exact List.map_congr_left fun _ _ => overwrite_addr

/-- Writing back the value an entry has changes nothing. -/
theorem map_overwrite_self {entries : List (HMapEntry K V)} (distinct : (addrs entries).Nodup)
    (member : entry ∈ entries) : entries.map (overwrite entry.addr entry.val) = entries := by
  conv_rhs => rw [← List.map_id entries]
  refine List.map_congr_left ?_
  intro other inside
  unfold overwrite
  split
  · rename_i same
    rw [List.inj_on_of_nodup_map distinct inside member same]
    rfl
  · rfl

/-- The table after a write to the value of one node. -/
theorem steps_of_overwrite {blocks : Blocks AlTag (HMapCell K V)} (rep : Rep blocks self table)
    (shape : Shape self table) (member : entry ∈ table.flatten) :
    Steps blocks (Function.update blocks entry.addr (some ⟨(self.al, self.node),
      .node { nodeOf entry (nextOf blocks entry.addr) with val := val }⟩)) self self table
      (table.map (List.map (overwrite entry.addr val))) := by
  have entries : (table.map (List.map (overwrite entry.addr val))).flatten =
      table.flatten.map (overwrite entry.addr val) := List.map_flatten.symm
  have links : nextOf (Function.update blocks entry.addr (some ⟨(self.al, self.node),
      .node { nodeOf entry (nextOf blocks entry.addr) with val := val }⟩)) = nextOf blocks := by
    rw [nextOf_update_node]
    exact Function.update_eq_self _ _
  have mine : entry.addr ∈ owned self table := mem_owned.mpr (Or.inr (addr_mem_addrs member))
  have sameOwned : owned self (table.map (List.map (overwrite entry.addr val))) =
      owned self table := by
    unfold owned
    rw [entries, addrs_overwrite]
  refine ⟨?_, ?_, ?_, rfl⟩
  · refine ⟨?_, ?_, ?_, ?_⟩
    · rw [rep.none_iff, List.map_eq_nil_iff]
    · intro array buckets
      rcases rep.array array buckets with ⟨slots, at_array, chains⟩
      have separate := (rep.holds entry member).ne_array at_array
      refine ⟨slots, at_array.update_of_ne separate.symm, ?_, ?_⟩
      · rw [List.length_map]
        exact chains.length
      · intro idx head chain atSlot atTable
        rw [List.getElem?_map] at atTable
        rcases Option.map_eq_some_iff.mp atTable with ⟨old, atOld, rfl⟩
        rw [links, addrs_overwrite]
        exact chains.chain idx head old atSlot atOld
    · intro other inside
      rw [entries] at inside
      rcases List.mem_map.mp inside with ⟨old, atOld, rfl⟩
      by_cases same : old.addr = entry.addr
      · have equal : old = entry := List.inj_on_of_nodup_map rep.distinct atOld member same
        subst equal
        unfold Holds
        rw [overwrite_addr, links, Function.update_self, overwrite, if_pos rfl]
        rfl
      · rw [overwrite_of_ne same]
        exact (rep.holds old atOld).update_of_ne same
    · rw [entries, addrs_overwrite]
      exact rep.distinct
  · refine ⟨shape.real, shape.keyType, shape.valType, shape.layout, ?_, ?_, ?_, ?_, ?_⟩
    · rw [List.length_map]
      exact shape.count
    · rw [List.length_map]
      exact shape.power
    · intro idx chain atTable other inside
      rw [List.getElem?_map] at atTable
      rcases Option.map_eq_some_iff.mp atTable with ⟨old, atOld, rfl⟩
      rcases List.mem_map.mp inside with ⟨previous, before, rfl⟩
      rw [List.length_map, overwrite_hash]
      exact shape.placed idx old atOld previous before
    · rw [entries, List.length_map]
      exact shape.len
    · rw [entries, List.length_map, List.length_map]
      exact shape.load
  · rw [sameOwned]
    exact Evolves.of_write mine

end Overwrite

/-! ## Insertion -/

/-- What a search for the key finds among the entries. -/
theorem lookup_some (found : lookup self table key hash = some entry) :
    entry ∈ table.flatten ∧ isEntry self key hash entry = true :=
  ⟨chainOf_sub (List.mem_of_find?_eq_some found), List.find?_some found⟩

/-- A search that finds nothing has missed no entry, in no bucket. -/
theorem Shape.lookup_none (shape : Shape self table)
    (missing : lookup self table key hash = none) :
    forall other, other ∈ table.flatten -> isEntry self key hash other = false := by
  intro other member
  by_cases same : other.hash = hash
  · subst hash
    exact Bool.eq_false_iff.mpr (List.find?_eq_none.mp missing other (shape.mem_chainOf member))
  · unfold isEntry
    rw [beq_eq_false_iff_ne.mpr same, Bool.false_and]

/-- The value that a node keeps of the one passed in. -/
def stored (self : HMap K) (val : Option V) : Option V :=
  if self.val.size > 0 then val else none

/-- The entry found under a key, with the value an `insert` leaves in it. -/
def assigned (self : HMap K) (entry : HMapEntry K V) (val : Option V) : Option V :=
  if self.val.size > 0 then val else entry.val

/-- What `insert` does to the entries of a map, and what it reports. -/
inductive Inserts (map : HMap K) (key : K) (val : Option V) (before : List (HMapEntry K V)) :
    Status × Option Bool -> List (HMapEntry K V) -> Prop where
  | replaced (entry : HMapEntry K V) (member : entry ∈ before)
      (found : isEntry map key (map.hasher key) entry = true) :
      Inserts map key val before (.ok, some false)
        (before.map (overwrite entry.addr (assigned map entry val)))
  | added (entry : HMapEntry K V) (after : List (HMapEntry K V))
      (absent : forall other, other ∈ before -> isEntry map key (map.hasher key) other = false)
      (perm : after.Perm (entry :: before)) (sameHash : entry.hash = map.hasher key)
      (sameKey : entry.key = key) (sameVal : entry.val = stored map val) :
      Inserts map key val before (.ok, some true) after
  | refused (after : List (HMapEntry K V))
      (absent : forall other, other ∈ before -> isEntry map key (map.hasher key) other = false)
      (perm : after.Perm before) :
      Inserts map key val before (.errNoMem, none) after

theorem ends_insert (rep : Rep heap.blocks self table) (shape : Shape self table)
    (given : val.isSome = true ∨ self.val.size = 0)
    {post : Status × Option Bool × HMap K -> HMapMem K V -> Prop}
    (holds : forall (out : Status × Option Bool) (after : HMap K) (changed : HMapTable K V)
      (later : HMapMem K V),
      Steps heap.blocks later.blocks self after table changed -> Widens self after ->
      ((lookup self table key (self.hasher key)).isSome = true -> after = self) ->
      Inserts self key val table.flatten out changed.flatten -> post (out.1, out.2, after) later) :
    Ends (insert self key val) heap post := by
  simp only [insert, ends_bind, ends_assertHMap (shape.asserts rep), ends_require, given,
    true_and]
  refine ends_findNode rep shape ?_
  cases found : lookup self table key (self.hasher key) with
  | some entry =>
      rcases lookup_some found with ⟨member, matches_⟩
      have here := rep.holds entry member
      have effect : Inserts self key val table.flatten _ _ := .replaced entry member matches_
      by_cases valued : self.val.size > 0
      · simp only [Option.map_some, if_pos valued, ends_bind, ends_readNode here,
          ends_writeNode here, ends_pure]
        rw [assigned, if_pos valued, List.map_flatten] at effect
        exact holds _ self _ _ (steps_of_overwrite rep shape member) Widens.refl (fun _ => rfl) effect
      · simp only [Option.map_some, if_neg valued, ends_pure]
        rw [assigned, if_neg valued, map_overwrite_self rep.distinct member] at effect
        exact holds _ self _ _ (Steps.refl rep shape) Widens.refl (fun _ => rfl) effect
  | none =>
      have absent := shape.lookup_none found
      simp only [Option.map_none, ends_bind]
      refine ends_addNode rep shape ?_ ?_
      · intro after changed later steps widens perm
        simp only [ends_assertHMap steps.asserts, if_refused,
          ends_pure]
        exact holds (.errNoMem, none) after changed later steps widens
          (fun present => by rw [found] at present; cases present) (.refused _ absent perm)
      · intro entry after changed later steps widens perm sameHash sameKey sameVal
        simp only [ends_assertHMap steps.asserts, if_granted,
          ends_pure]
        exact holds (.ok, some true) after changed later steps widens
          (fun present => by rw [found] at present; cases present)
          (.added entry _ absent perm sameHash sameKey sameVal)

/-- What `get_or_insert` does to the entries of a map, and the node it reports. -/
inductive GetsOrInserts (map : HMap K) (key : K) (val : Option V)
    (before : List (HMapEntry K V)) : Status × Option Addr -> List (HMapEntry K V) -> Prop where
  | found (entry : HMapEntry K V) (member : entry ∈ before)
      (found : isEntry map key (map.hasher key) entry = true) :
      GetsOrInserts map key val before (.ok, some entry.addr) before
  | added (entry : HMapEntry K V) (after : List (HMapEntry K V))
      (absent : forall other, other ∈ before -> isEntry map key (map.hasher key) other = false)
      (perm : after.Perm (entry :: before)) (sameHash : entry.hash = map.hasher key)
      (sameKey : entry.key = key) (sameVal : entry.val = stored map val) :
      GetsOrInserts map key val before (.ok, some entry.addr) after
  | refused (after : List (HMapEntry K V))
      (absent : forall other, other ∈ before -> isEntry map key (map.hasher key) other = false)
      (perm : after.Perm before) :
      GetsOrInserts map key val before (.errNoMem, none) after

/-- The node that `get_or_insert` hands out is one of the map's. -/
theorem GetsOrInserts.node_mem {st : Status} {node : Addr}
    {before later : List (HMapEntry K V)}
    (gets : GetsOrInserts self key val before (st, some node) later) :
    exists entry, entry ∈ later ∧ entry.addr = node := by
  cases gets with
  | found entry member => exact ⟨entry, member, rfl⟩
  | added entry _ absent perm => exact ⟨entry, perm.mem_iff.mpr List.mem_cons_self, rfl⟩

theorem ends_getOrInsert (rep : Rep heap.blocks self table) (shape : Shape self table)
    (given : val.isSome = true ∨ self.val.size = 0)
    {post : Status × Option Addr × HMap K -> HMapMem K V -> Prop}
    (holds : forall (out : Status × Option Addr) (after : HMap K) (changed : HMapTable K V)
      (later : HMapMem K V),
      Steps heap.blocks later.blocks self after table changed -> Widens self after ->
      ((lookup self table key (self.hasher key)).isSome = true -> after = self) ->
      GetsOrInserts self key val table.flatten out changed.flatten ->
      post (out.1, out.2, after) later) :
    Ends (getOrInsert self key val) heap post := by
  simp only [getOrInsert, ends_bind, ends_assertHMap (shape.asserts rep), ends_require,
    given, true_and]
  refine ends_findNode rep shape ?_
  cases found : lookup self table key (self.hasher key) with
  | some entry =>
      rcases lookup_some found with ⟨member, matches_⟩
      simp only [Option.map_some, ends_pure]
      exact holds (.ok, some entry.addr) self table heap (Steps.refl rep shape) Widens.refl
        (fun _ => rfl) (.found entry member matches_)
  | none =>
      have absent := shape.lookup_none found
      simp only [Option.map_none, ends_bind]
      refine ends_addNode rep shape ?_ ?_
      · intro after changed later steps widens perm
        simp only [ends_assertHMap steps.asserts, ends_pure]
        exact holds (.errNoMem, none) after changed later steps widens
          (fun present => by rw [found] at present; cases present) (.refused _ absent perm)
      · intro entry after changed later steps widens perm sameHash sameKey sameVal
        simp only [ends_assertHMap steps.asserts, ends_pure]
        exact holds (.ok, some entry.addr) after changed later steps widens
          (fun present => by rw [found] at present; cases present)
          (.added entry _ absent perm sameHash sameKey sameVal)

/-! ## Many insertions -/

/-- What pair-by-pair insertion does to the entries: it goes through the pairs
in order and stops at the first that is refused. -/
inductive InsertsAll (map : HMap K) :
    List (K × Option V) -> List (HMapEntry K V) -> Status -> List (HMapEntry K V) -> Prop where
  | done (before : List (HMapEntry K V)) : InsertsAll map [] before .ok before
  | again {key : K} {val : Option V} {rest : List (K × Option V)} {isNew : Option Bool}
      {st : Status} {before middle after : List (HMapEntry K V)}
      (first : Inserts map key val before (.ok, isNew) middle)
      (distinct : (addrs middle).Nodup)
      (others : InsertsAll map rest middle st after) :
      InsertsAll map ((key, val) :: rest) before st after
  | stopped {key : K} {val : Option V} {rest : List (K × Option V)}
      {before after : List (HMapEntry K V)}
      (first : Inserts map key val before (.errNoMem, none) after) :
      InsertsAll map ((key, val) :: rest) before .errNoMem after

/-- Only the callbacks and the value layout of the map matter. -/
theorem Inserts.congr {other : HMap K} (same : forgetBuckets other = forgetBuckets self)
    {before later : List (HMapEntry K V)} {out : Status × Option Bool}
    (inserts : Inserts other key val before out later) : Inserts self key val before out later := by
  have eqs : other.eq = self.eq := (congrArg HMap.eq same :)
  have hashers : other.hasher = self.hasher := (congrArg HMap.hasher same :)
  have vals : other.val = self.val := (congrArg HMap.val same :)
  have matches_ : forall entry : HMapEntry K V, isEntry other key (other.hasher key) entry =
      isEntry self key (self.hasher key) entry := by
    intro entry
    unfold isEntry
    rw [eqs, hashers]
  cases inserts with
  | replaced entry member found =>
      rw [show assigned other entry val = assigned self entry val by unfold assigned; rw [vals]]
      exact .replaced entry member (matches_ entry ▸ found)
  | added entry after absent perm sameHash sameKey sameVal =>
      refine .added entry _ (fun other' inside => matches_ other' ▸ absent other' inside) perm
        (hashers ▸ sameHash) sameKey ?_
      rw [sameVal]
      unfold stored
      rw [vals]
  | refused after absent perm =>
      exact .refused _ (fun other' inside => matches_ other' ▸ absent other' inside) perm

theorem InsertsAll.congr {other : HMap K} (same : forgetBuckets other = forgetBuckets self)
    {pairs : List (K × Option V)} {before later : List (HMapEntry K V)} {st : Status}
    (inserts : InsertsAll other pairs before st later) : InsertsAll self pairs before st later := by
  induction inserts with
  | done before => exact .done before
  | again first distinct _ ih =>
      exact .again (first.congr same) distinct ih
  | stopped first => exact .stopped (first.congr same)

theorem ends_insertAll {pairs : List (K × Option V)} (rep : Rep heap.blocks self table)
    (shape : Shape self table)
    (given : forall pair, pair ∈ pairs -> pair.2.isSome = true ∨ self.val.size = 0)
    {post : Status × HMap K -> HMapMem K V -> Prop}
    (holds : forall (st : Status) (after : HMap K) (changed : HMapTable K V)
      (later : HMapMem K V),
      Steps heap.blocks later.blocks self after table changed ->
      InsertsAll self pairs table.flatten st changed.flatten -> post (st, after) later) :
    Ends (insertAll self pairs) heap post := by
  induction pairs generalizing heap self table with
  | nil =>
      simp only [insertAll, ends_pure]
      exact holds .ok self table heap (Steps.refl rep shape) (.done _)
  | cons pair rest ih =>
      rcases pair with ⟨key, val⟩
      simp only [insertAll, ends_bind]
      refine ends_insert rep shape (given (key, val) List.mem_cons_self) ?_
      rintro ⟨st, isNew⟩ after changed later steps _ _ inserts
      cases st with
      | errNoMem =>
          simp only [if_refused, ends_pure]
          refine holds .errNoMem after changed later steps ?_
          cases inserts with
          | refused _ absent perm => exact .stopped (.refused _ absent perm)
      | ok =>
          simp only [if_granted]
          refine ih steps.rep steps.shape ?_ ?_
          · intro other member
            rw [steps.val_eq]
            exact given other (List.mem_cons_of_mem _ member)
          · intro st last final latest more others
            exact holds st last final latest (steps.trans more)
              (.again inserts steps.rep.distinct (others.congr steps.kind))

theorem ends_extend {keys : SpanView K} {vals : SpanView V} (rep : Rep heap.blocks self table)
    (shape : Shape self table) (sameKeys : self.key = keys.elem) (sameVals : self.val = vals.elem)
    (sameLen : keys.len = vals.len) {post : Status × HMap K -> HMapMem K V -> Prop}
    (holds : forall (st : Status) (after : HMap K) (changed : HMapTable K V)
      (later : HMapMem K V),
      Steps heap.blocks later.blocks self after table changed ->
      InsertsAll self (keys.elems.zip (vals.elems.map some)) table.flatten st changed.flatten ->
      post (st, after) later) :
    Ends (extend self keys vals) heap post := by
  simp only [extend, ends_bind, ends_assertHMap (shape.asserts rep), ends_require, sameKeys,
    sameVals, sameLen, true_and]
  refine ends_insertAll rep shape ?_ ?_
  · rintro ⟨key, val⟩ member
    rcases List.mem_map.mp (List.of_mem_zip member).2 with ⟨raw, _, same⟩
    exact Or.inl (by rw [← same]; rfl)
  · intro st after changed later steps inserts
    simp only [ends_assertHMap steps.asserts, ends_pure]
    exact holds st after changed later steps inserts

end HMap
end TerseDsa
