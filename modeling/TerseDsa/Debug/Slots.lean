import TerseDsa.Debug.Table
import TerseDsa.Foundation.Probing
import Mathlib.Data.List.Nodup
import Mathlib.Data.List.Perm.Basic

namespace TerseDsa

open Foundation Run

/-!
# What the table holds

A table in use has a power of two of slots, not all of them taken, and shows its
records by linear probing.  Probing, putting in and taking out act on the list
of records as on a set, whatever the hash is.
-/

namespace BlockTable

variable {S : Type} {table : BlockTable} {records : List BlockRecord} {record entry : BlockRecord}
  {addr place idx : Nat} {s : S} {hash : Nat -> Nat}

/-- The slot is taken. -/
def occupied (record : BlockRecord) : Bool := record.addr != 0

/-- The address in a slot. -/
def key (record : BlockRecord) : Option Nat := if record.addr = 0 then none else some record.addr

/-- The address in the slot at an index. -/
def keyAt (table : BlockTable) (idx : Nat) : Option Nat := table.slots[idx]?.bind key

/-- The records in the slots, wherever they are. -/
structure Filled (table : BlockTable) (records : List BlockRecord) : Prop where
  length : table.slots.length = table.cap
  pow : exists k, table.cap = 2 ^ k
  fits : table.cap < sizeRange
  content : (table.slots.filter occupied).Perm records
  distinct : (records.map BlockRecord.addr).Nodup
  room : records.length < table.cap

/-- A table in use, and its records, under a hash. -/
structure StoredBy (hash : Nat -> Nat) (table : BlockTable) (records : List BlockRecord) : Prop
    extends Filled table records where
  probed : Probed table.cap table.keyAt (table.homeBy hash)

theorem key_eq_none : key record = none <-> record.addr = 0 := by
  unfold key
  split
  · simp_all
  · simp_all

theorem key_eq_some : key record = some addr <-> record.addr = addr ∧ addr ≠ 0 := by
  unfold key
  split
  · rename_i zero
    rw [zero]
    constructor
    · exact fun impossible => nomatch impossible
    · rintro ⟨rfl, real⟩
      exact absurd rfl real
  · rename_i real
    rw [Option.some.injEq]
    constructor
    · rintro rfl
      exact ⟨rfl, real⟩
    · exact And.left

theorem keyAt_eq (at_ : table.slots[idx]? = some record) : table.keyAt idx = key record := by
  rw [keyAt, at_, Option.bind_some]

/-- Writing one slot changes its key. -/
theorem keyAt_set (table : BlockTable) (record : BlockRecord) (inside : idx < table.slots.length) :
    keyAt { table with slots := table.slots.set idx record } =
      Function.update table.keyAt idx (key record) := by
  funext other
  unfold keyAt
  dsimp only
  by_cases same : other = idx
  · rw [same, Function.update_self, List.getElem?_set_self inside]
    rfl
  · rw [Function.update_of_ne same, List.getElem?_set_ne (Ne.symm same)]

/-- Writing one slot exchanges what it has. -/
theorem perm_set {slots : List BlockRecord} (at_ : slots[idx]? = some record) (entry : BlockRecord) :
    (record :: slots.set idx entry).Perm (entry :: slots) := by
  rcases List.getElem?_eq_some_iff.mp at_ with ⟨inside, same⟩
  have removed := List.getElem_cons_eraseIdx_perm inside
  have placed := List.set_perm_cons_eraseIdx inside entry
  rw [same] at removed
  exact (placed.cons record).trans ((List.Perm.swap entry record _).trans (removed.cons entry))

/-! ## Slots -/

namespace Filled

variable (filled : Filled table records)

include filled

theorem cap_pos : 0 < table.cap := Nat.lt_of_le_of_lt (Nat.zero_le _) filled.room

theorem mask (number : Nat) : number &&& (table.cap - 1) = number % table.cap := by
  rcases filled.pow with ⟨k, cap⟩
  rw [cap]
  exact Nat.and_two_pow_sub_one_eq_mod number k

theorem home_lt : table.homeBy hash addr < table.cap := by
  rw [homeBy, filled.mask]
  exact Nat.mod_lt _ filled.cap_pos

/-- The way from one slot to another, as the masked difference gives it. -/
theorem distance {start steps : Nat} (from_ : start < table.cap) (short : steps < table.cap) :
    wrapSub ((start + steps) % table.cap) start &&& (table.cap - 1) = steps := by
  have fits := filled.fits
  have whole : table.cap ∣ sizeRange := by
    rcases filled.pow with ⟨k, cap⟩
    rw [cap] at fits ⊢
    unfold sizeRange at fits ⊢
    exact Nat.pow_dvd_pow 2 (Nat.le_of_lt ((Nat.pow_lt_pow_iff_right (by decide)).mp fits))
  rw [filled.mask, wrapSub, Nat.mod_eq_of_lt (Nat.lt_trans from_ fits), Nat.mod_mod_of_dvd _ whole]
  have below : start ≤ sizeRange := Nat.le_of_lt (Nat.lt_trans from_ fits)
  have sum : (start + steps) % table.cap + (sizeRange - start) ≡
      steps + sizeRange [MOD table.cap] := by
    have first : (start + steps) % table.cap ≡ start + steps [MOD table.cap] := Nat.mod_modEq _ _
    have second := first.add_right (sizeRange - start)
    have regroup : start + steps + (sizeRange - start) = steps + sizeRange := by omega
    rwa [regroup] at second
  have vanishes : steps + sizeRange ≡ steps [MOD table.cap] := by
    rcases whole with ⟨times, equal⟩
    rw [equal]
    exact Nat.add_mul_mod_self_left _ _ _
  have total : ((start + steps) % table.cap + (sizeRange - start)) % table.cap = steps % table.cap :=
    sum.trans vanishes
  rw [total, Nat.mod_eq_of_lt short]

/-- The records are what the taken slots have. -/
theorem mem_iff : entry ∈ records <-> entry ∈ table.slots ∧ entry.addr ≠ 0 := by
  rw [← filled.content.mem_iff, List.mem_filter, occupied, bne_iff_ne]

/-- The key of a slot is that of a record. -/
theorem keyAt_some (here : table.keyAt idx = some addr) :
    exists record, table.slots[idx]? = some record ∧ record.addr = addr ∧ record ∈ records := by
  rcases Option.bind_eq_some_iff.mp here with ⟨record, at_, isKey⟩
  rcases key_eq_some.mp isKey with ⟨same, real⟩
  refine ⟨record, at_, same, filled.mem_iff.mpr ⟨List.mem_of_getElem? at_, ?_⟩⟩
  rw [same]
  exact real

theorem exists_empty : exists idx, idx < table.cap ∧ table.keyAt idx = none := by
  by_contra none_
  have all : forall record, record ∈ table.slots -> occupied record = true := by
    intro record inside
    rcases List.getElem?_of_mem inside with ⟨idx, at_⟩
    rcases List.getElem?_eq_some_iff.mp at_ with ⟨within, _⟩
    rw [occupied, bne_iff_ne]
    intro zero
    refine none_ ⟨idx, filled.length ▸ within, ?_⟩
    rw [keyAt_eq at_, key_eq_none]
    exact zero
  have whole := filled.content.length_eq
  rw [List.filter_eq_self.mpr all, filled.length] at whole
  exact Nat.lt_irrefl _ (whole ▸ filled.room)

/-- From any slot on an empty one comes. -/
theorem empty_from {start : Nat} (from_ : start < table.cap) :
    exists steps, steps < table.cap ∧ table.keyAt ((start + steps) % table.cap) = none := by
  rcases filled.exists_empty with ⟨idx, inside, empty⟩
  refine ⟨(idx + table.cap - start) % table.cap, Nat.mod_lt _ filled.cap_pos, ?_⟩
  have there : (start + (idx + table.cap - start) % table.cap) % table.cap = idx := by
    rw [Nat.add_mod_mod]
    have regroup : start + (idx + table.cap - start) = idx + table.cap := by omega
    rw [regroup, Nat.add_mod_right, Nat.mod_eq_of_lt inside]
  rw [there]
  exact empty

theorem getElem?_of_lt (inside : idx < table.cap) : exists record, table.slots[idx]? = some record := by
  rw [← filled.length] at inside
  exact ⟨table.slots[idx], List.getElem?_eq_getElem inside⟩

/-- Probing stops where the address is, or where it would go. -/
theorem ends_probe {post : Nat -> S -> Prop}
    (found : forall place steps, ReachedIn table.cap table.keyAt (table.homeBy hash addr) place steps ->
      (forall idx, idx < steps -> table.keyAt ((table.homeBy hash addr + idx) % table.cap) ≠ some addr) ->
      table.keyAt place = none ∨ table.keyAt place = some addr -> post place s) :
    Ends (table.probeBy hash addr) s post := by
  have positive := filled.cap_pos
  have home_lt : table.homeBy hash addr < table.cap := filled.home_lt
  rcases filled.empty_from home_lt with ⟨limit, short, empty⟩
  simp only [probeBy, ends_bind, ends_require, positive, true_and]
  -- so many slots were looked at, and none of them was empty or had the address
  refine ends_loop (n := limit) (fun n place t => t = s ∧ exists steps, steps ≤ limit ∧
    n = limit - steps ∧ (table.homeBy hash addr + steps) % table.cap = place ∧
    forall idx, idx < steps -> table.keyAt ((table.homeBy hash addr + idx) % table.cap) ≠ none ∧
      table.keyAt ((table.homeBy hash addr + idx) % table.cap) ≠ some addr) ?_
    ⟨rfl, 0, Nat.zero_le _, rfl, ?_, fun _ impossible => absurd impossible (Nat.not_lt_zero _)⟩ (by omega)
  · rintro n place t ⟨rfl, steps, bound, rfl, rfl, passed⟩
    rcases filled.getElem?_of_lt (Nat.mod_lt (table.homeBy hash addr + steps) positive) with ⟨record, at_⟩
    have isKey := keyAt_eq at_
    simp only [slot, at_, ends_bind, ends_demand_some]
    by_cases other : record.addr ≠ 0 ∧ record.addr ≠ addr
    · have taken : table.keyAt ((table.homeBy hash addr + steps) % table.cap) = some record.addr := by
        rw [isKey]
        exact key_eq_some.mpr ⟨rfl, other.1⟩
      have before : steps < limit := by
        apply Nat.lt_of_le_of_ne bound
        rintro rfl
        rw [taken] at empty
        cases empty
      rw [if_pos other]
      simp only [ends_pure]
      refine ⟨limit - (steps + 1), by omega, trivial, steps + 1, before, rfl, ?_, ?_⟩
      · rw [filled.mask, Nat.mod_add_mod, Nat.add_assoc]
      · intro idx below
        rcases Nat.lt_or_eq_of_le (Nat.le_of_lt_succ below) with earlier | last
        · exact passed idx earlier
        · rw [last, taken]
          exact ⟨Option.some_ne_none _, fun same => other.2 (Option.some.inj same)⟩
    · rw [if_neg other]
      simp only [ends_pure]
      refine found _ steps ⟨by omega, rfl, fun idx below => (passed idx below).1⟩
        (fun idx below => (passed idx below).2) ?_
      rw [isKey, key_eq_none, key_eq_some]
      by_cases zero : record.addr = 0
      · exact Or.inl zero
      · have same : record.addr = addr := by
          by_contra different
          exact other ⟨zero, different⟩
        exact Or.inr ⟨same, same ▸ zero⟩
  · rw [Nat.add_zero, Nat.mod_eq_of_lt home_lt]

theorem perm {after : List BlockRecord} (perm : records.Perm after) : Filled table after where
  length := filled.length
  pow := filled.pow
  fits := filled.fits
  content := filled.content.trans perm
  distinct := (perm.map BlockRecord.addr).nodup_iff.mp filled.distinct
  room := perm.length_eq ▸ filled.room

theorem put (inside : idx < table.cap) (empty : table.keyAt idx = none) (real : entry.addr ≠ 0)
    (fresh : forall record, record ∈ records -> record.addr ≠ entry.addr)
    (room : records.length + 1 < table.cap) :
    Filled { table with slots := table.slots.set idx entry } (entry :: records) where
  length := by
    dsimp only
    rw [List.length_set]
    exact filled.length
  pow := filled.pow
  fits := filled.fits
  content := by
    rcases filled.getElem?_of_lt inside with ⟨before, at_⟩
    have zero : before.addr = 0 := key_eq_none.mp ((keyAt_eq at_).symm.trans empty)
    have swapped := (perm_set at_ entry).filter occupied
    have isFree : occupied before = false := by
      rw [occupied, zero]
      rfl
    have isTaken : occupied entry = true := bne_iff_ne.mpr real
    rw [List.filter_cons_of_neg (Bool.eq_false_iff.mp isFree), List.filter_cons_of_pos isTaken] at swapped
    exact swapped.trans (filled.content.cons entry)
  distinct := by
    rw [List.map_cons, List.nodup_cons]
    refine ⟨?_, filled.distinct⟩
    intro inside
    rcases List.mem_map.mp inside with ⟨record, there, same⟩
    exact fresh record there same
  room := room

theorem remove (at_ : table.slots[idx]? = some record) (real : record.addr ≠ 0) :
    Filled { table with slots := table.slots.set idx .empty } (records.erase record) where
  length := by
    dsimp only
    rw [List.length_set]
    exact filled.length
  pow := filled.pow
  fits := filled.fits
  content := by
    have swapped := (perm_set at_ .empty).filter occupied
    have isTaken : occupied record = true := bne_iff_ne.mpr real
    have isFree : ¬ occupied BlockRecord.empty = true := Bool.false_ne_true
    rw [List.filter_cons_of_pos isTaken, List.filter_cons_of_neg isFree] at swapped
    have erased := (swapped.trans filled.content).erase record
    rw [List.erase_cons_head] at erased
    exact erased
  distinct := filled.distinct.sublist (List.erase_sublist.map BlockRecord.addr)
  room := Nat.lt_of_le_of_lt List.erase_sublist.length_le filled.room

theorem shift {hole : Nat} (inside : hole < table.cap) (empty : table.keyAt hole = none)
    (at_ : table.slots[idx]? = some record) (real : record.addr ≠ 0) :
    Filled { table with slots := (table.slots.set hole record).set idx .empty } records where
  length := by
    dsimp only
    rw [List.length_set, List.length_set]
    exact filled.length
  pow := filled.pow
  fits := filled.fits
  content := by
    rcases filled.getElem?_of_lt inside with ⟨before, holeAt⟩
    have zero : before.addr = 0 := key_eq_none.mp ((keyAt_eq holeAt).symm.trans empty)
    have different : hole ≠ idx := by
      rintro rfl
      rw [at_] at holeAt
      cases holeAt
      exact real zero
    have moved : (table.slots.set hole record)[idx]? = some record := by
      rw [List.getElem?_set_ne different]
      exact at_
    have isFree : ¬ occupied before = true := by
      rw [occupied, zero]
      exact Bool.false_ne_true
    have isTaken : occupied record = true := bne_iff_ne.mpr real
    have isEmpty : ¬ occupied BlockRecord.empty = true := Bool.false_ne_true
    have first := (perm_set holeAt record).filter occupied
    have second := (perm_set moved .empty).filter occupied
    rw [List.filter_cons_of_neg isFree, List.filter_cons_of_pos isTaken] at first
    rw [List.filter_cons_of_pos isTaken, List.filter_cons_of_neg isEmpty] at second
    exact (second.trans first).cons_inv.trans filled.content
  distinct := filled.distinct
  room := filled.room

theorem ends_closeHole {hole limit : Nat} {post : BlockTable -> S -> Prop}
    (holed : Holed table.cap table.keyAt (table.homeBy hash) hole 1 limit)
    (done : forall slots, StoredBy hash { table with slots := slots } records ->
      post { table with slots := slots } s) :
    Ends (closeHoleBy hash table hole) s post := by
  have start : (hole + 1) &&& (table.cap - 1) = (hole + 1) % table.cap := filled.mask _
  have short := holed.short
  unfold closeHoleBy
  dsimp only
  -- the slots behind the hole are looked at in turn, up to the next empty one
  refine ends_loop (n := limit - 1) (fun n b t => t = s ∧ exists slots hole count limit,
    b = ({ table with slots := slots }, hole, (hole + count) % table.cap) ∧ n = limit - count ∧
    Filled { table with slots := slots } records ∧
    Holed table.cap (keyAt { table with slots := slots }) (table.homeBy hash) hole count limit) ?_
    ⟨rfl, table.slots, hole, 1, limit, by rw [start], rfl, filled, holed⟩ (by omega)
  rintro n b t ⟨rfl, slots, hole, count, limit, rfl, rfl, filled, holed⟩
  have positive : 0 < table.cap := filled.cap_pos
  have inside : hole < table.cap := holed.inside
  have next := Nat.mod_lt (hole + count) positive
  rcases filled.getElem?_of_lt next with ⟨record, at_⟩
  have at_ : slots[(hole + count) % table.cap]? = some record := at_
  have isKey : keyAt { table with slots := slots } ((hole + count) % table.cap) = key record := keyAt_eq at_
  simp only [slot, at_, ends_bind, ends_demand_some]
  by_cases zero : record.addr = 0
  · have empty := isKey.trans (key_eq_none.mpr zero)
    simp only [if_neg (not_not.mpr zero), ends_pure]
    exact done slots ⟨filled, holed.finish empty⟩
  · have here := isKey.trans (key_eq_some.mpr ⟨rfl, zero⟩)
    rcases holed.past _ _ next here with ⟨steps, reached⟩
    have toHome : wrapSub ((hole + count) % table.cap) (homeBy hash { table with slots := slots } record.addr) &&&
        (table.cap - 1) = steps := by
      have home_lt : table.homeBy hash record.addr < table.cap := filled.home_lt
      have way := filled.distance home_lt reached.short
      rw [← reached.place]
      exact way
    have toHole : wrapSub ((hole + count) % table.cap) hole &&& (table.cap - 1) = count :=
      filled.distance inside holed.next_short
    have onward : ((hole + count) % table.cap + 1) &&& (table.cap - 1) =
        (hole + (count + 1)) % table.cap := by
      have masked : ((hole + count) % table.cap + 1) &&& (table.cap - 1) =
        ((hole + count) % table.cap + 1) % table.cap := filled.mask _
      rw [masked, Nat.mod_add_mod, Nat.add_assoc]
    have further := holed.count_lt here
    rw [if_pos zero]
    simp only [toHome, toHole]
    by_cases far : steps ≥ count
    · have holeIn : hole < slots.length := filled.length.symm ▸ inside
      have nextIn : (hole + count) % table.cap < (slots.set hole record).length := by
        rw [List.length_set]
        exact filled.length.symm ▸ next
      simp only [if_pos far, setSlot, ends_bind, ends_require, holeIn, nextIn, true_and, ends_pure]
      have shifted : Filled { table with slots := _ } records :=
        filled.shift inside holed.hole_empty at_ zero
      have keys : keyAt { table with slots := (slots.set hole record).set ((hole + count) % table.cap) .empty } =
          Function.update (Function.update (keyAt { table with slots := slots }) hole (some record.addr))
            ((hole + count) % table.cap) none := by
        have first := keyAt_set { table with slots := slots } record holeIn
        have second := keyAt_set { table with slots := slots.set hole record } .empty nextIn
        have isKey : key record = some record.addr := key_eq_some.mpr ⟨rfl, zero⟩
        rw [isKey] at first
        rw [← first]
        exact second
      refine ⟨limit - count - 1, by omega, _, (hole + count) % table.cap, 1, limit - count, ?_, rfl, shifted, ?_⟩
      · rw [onward, Nat.mod_add_mod, Nat.add_assoc]
      · rw [keys]
        exact holed.move here reached far
    · simp only [if_neg far, ends_pure]
      refine ⟨limit - (count + 1), by omega, trivial, slots, hole, count + 1, limit, ?_, rfl, filled, ?_⟩
      · rw [onward]
      · exact holed.skip here reached (Nat.lt_of_not_le far)

end Filled

/-! ## A table in use -/

namespace StoredBy

variable (stored : StoredBy hash table records)

include stored

theorem perm {after : List BlockRecord} (perm : records.Perm after) : StoredBy hash table after :=
  ⟨stored.toFilled.perm perm, stored.probed⟩

theorem put {steps : Nat} (real : entry.addr ≠ 0)
    (reached : ReachedIn table.cap table.keyAt (table.homeBy hash entry.addr) place steps)
    (empty : table.keyAt place = none)
    (fresh : forall record, record ∈ records -> record.addr ≠ entry.addr)
    (room : records.length + 1 < table.cap) :
    StoredBy hash { table with slots := table.slots.set place entry } (entry :: records) := by
  have inside : place < table.cap := by
    rw [← reached.place]
    exact Nat.mod_lt _ stored.cap_pos
  refine ⟨stored.toFilled.put inside empty real fresh room, ?_⟩
  have isKey : key entry = some entry.addr := key_eq_some.mpr ⟨rfl, real⟩
  rw [keyAt_set table entry (stored.length.symm ▸ inside), isKey]
  exact stored.probed.insert reached

/-- What probing leads to, if no record has the address. -/
theorem empty_of_fresh (fresh : forall record, record ∈ records -> record.addr ≠ addr)
    (either : table.keyAt place = none ∨ table.keyAt place = some addr) : table.keyAt place = none := by
  rcases either with empty | here
  · exact empty
  · rcases stored.keyAt_some here with ⟨record, _, same, inside⟩
    exact absurd same (fresh record inside)

/-- Probing that ends at an empty slot has not missed the address. -/
theorem absent {steps : Nat}
    (reached : ReachedIn table.cap table.keyAt (table.homeBy hash addr) place steps)
    (others : forall idx, idx < steps -> table.keyAt ((table.homeBy hash addr + idx) % table.cap) ≠ some addr)
    (empty : table.keyAt place = none) : forall record, record ∈ records -> record.addr ≠ addr := by
  intro other there same
  have nowhere := stored.probed.absent rfl reached empty others
  rcases List.getElem?_of_mem (stored.mem_iff.mp there).1 with ⟨slot, slotAt⟩
  rcases List.getElem?_eq_some_iff.mp slotAt with ⟨within, _⟩
  refine nowhere slot (stored.length ▸ within) ?_
  rw [keyAt_eq slotAt]
  exact key_eq_some.mpr ⟨same, same ▸ (stored.mem_iff.mp there).2⟩

/-- Behind a taken slot an empty one comes. -/
theorem empty_behind (here : table.keyAt place = some addr) :
    exists limit, 0 < limit ∧ limit < table.cap ∧ table.keyAt ((place + limit) % table.cap) = none := by
  rcases stored.keyAt_some here with ⟨record, at_, _, _⟩
  rcases List.getElem?_eq_some_iff.mp at_ with ⟨within, _⟩
  have inside : place < table.cap := stored.length ▸ within
  rcases stored.empty_from inside with ⟨limit, short, empty⟩
  refine ⟨limit, Nat.pos_of_ne_zero ?_, short, empty⟩
  rintro rfl
  rw [Nat.add_zero, Nat.mod_eq_of_lt inside, here] at empty
  cases empty

/-- Probing stops at the record with the address, or at an empty slot if none has it. -/
theorem ends_probeSlot {post : Nat -> S -> Prop}
    (absent : forall place record, table.slots[place]? = some record -> record.addr = 0 ->
      (forall record, record ∈ records -> record.addr ≠ addr) -> post place s)
    (found : forall place record, table.slots[place]? = some record -> record.addr ≠ 0 -> record ∈ records ->
      record.addr = addr -> post place s) :
    Ends (table.probeBy hash addr) s post := by
  apply stored.ends_probe
  intro place steps reached others either
  have inside : place < table.cap := by
    rw [← reached.place]
    exact Nat.mod_lt _ stored.cap_pos
  rcases stored.getElem?_of_lt inside with ⟨record, at_⟩
  have isKey := keyAt_eq at_
  by_cases zero : record.addr = 0
  · exact absent place record at_ zero (stored.absent reached others (isKey.trans (key_eq_none.mpr zero)))
  · rcases either with empty | here
    · exact absurd (key_eq_none.mp (isKey.symm.trans empty)) zero
    · exact found place record at_ zero (stored.mem_iff.mpr ⟨List.mem_of_getElem? at_, zero⟩)
        (key_eq_some.mp (isKey.symm.trans here)).1

/-- An address is found exactly if a record has it. -/
theorem ends_find {post : Option BlockRecord -> S -> Prop}
    (found : forall record, record ∈ records -> record.addr = addr -> post (some record) s)
    (absent : (forall record, record ∈ records -> record.addr ≠ addr) -> post none s) :
    Ends (table.findBy hash addr) s post := by
  have used : table.cap ≠ 0 := Nat.ne_of_gt stored.cap_pos
  simp only [findBy, if_neg used, ends_bind]
  apply stored.ends_probeSlot
  · intro place record at_ zero none_
    simp only [slot, at_, ends_demand_some, if_pos zero, ends_pure]
    exact absent none_
  · intro place record at_ taken member same
    simp only [slot, at_, ends_demand_some, if_neg taken, ends_pure]
    exact found record member same

theorem ends_place (real : entry.addr ≠ 0)
    (fresh : forall record, record ∈ records -> record.addr ≠ entry.addr)
    (room : records.length + 1 < table.cap) {post : BlockTable -> S -> Prop}
    (done : forall slots, StoredBy hash { table with slots := slots } (entry :: records) ->
      post { table with slots := slots, len := table.len + 1 } s) :
    Ends (table.placeBy hash entry) s post := by
  simp only [placeBy, ends_bind]
  apply stored.ends_probe
  intro place steps reached others either
  have empty := stored.empty_of_fresh fresh either
  have inside : place < table.cap := by
    rw [← reached.place]
    exact Nat.mod_lt _ stored.cap_pos
  rcases stored.getElem?_of_lt inside with ⟨before, at_⟩
  have zero : before.addr = 0 := key_eq_none.mp ((keyAt_eq at_).symm.trans empty)
  have within : place < table.slots.length := stored.length.symm ▸ inside
  simp only [slot, setSlot, at_, ends_bind, ends_demand_some, ends_require, zero, within, true_and,
    ends_pure]
  exact done _ (stored.put real reached empty fresh room)

/-- A record is taken out, if one has the address. -/
theorem ends_take
    {post : Option BlockRecord × BlockTable -> S -> Prop}
    (absent : (forall record, record ∈ records -> record.addr ≠ addr) -> post (none, table) s)
    (taken : forall record slots, record ∈ records -> record.addr = addr ->
      StoredBy hash { table with slots := slots } (records.erase record) ->
      post (some record, { table with slots := slots, len := table.len - 1 }) s) :
    Ends (table.takeBy hash addr) s post := by
  have used : table.cap ≠ 0 := Nat.ne_of_gt stored.cap_pos
  simp only [takeBy, if_neg used, ends_bind]
  apply stored.ends_probeSlot
  · intro place record at_ zero none_
    simp only [slot, at_, ends_demand_some, if_pos zero, ends_pure]
    exact absent none_
  · intro place record at_ zero member same
    have within : place < table.slots.length := (List.getElem?_eq_some_iff.mp at_).1
    have here := (keyAt_eq at_).trans (key_eq_some.mpr ⟨rfl, zero⟩)
    rcases stored.empty_behind here with ⟨limit, some_, short, empty⟩
    have holed := stored.probed.holed (stored.length ▸ within) some_ short empty
    have keys := keyAt_set table .empty within
    have none_ : key .empty = none := rfl
    rw [none_] at keys
    rw [← keys] at holed
    have removed := stored.toFilled.remove at_ zero
    simp only [slot, at_, ends_demand_some, if_neg zero, setSlot, ends_bind, ends_require, within, true_and,
      ends_pure]
    have counted : Filled ⟨table.slots.set place .empty, table.cap, table.len - 1⟩ (records.erase record) :=
      ⟨removed.length, removed.pow, removed.fits, removed.content, removed.distinct, removed.room⟩
    apply counted.ends_closeHole holed
    intro slots closed
    exact taken record slots member same
      ⟨⟨closed.length, closed.pow, closed.fits, closed.content, closed.distinct, closed.room⟩, closed.probed⟩

end StoredBy

/-! ## The table and its records -/

/-- Under a hash, the table is the set of the records: at most half full, or not yet made. -/
structure HoldsBy (hash : Nat -> Nat) (table : BlockTable) (records : List BlockRecord) : Prop where
  len : table.len = records.length
  half : 2 * table.len ≤ table.cap
  length : table.slots.length = table.cap
  small : table.cap * BlockRecord.layoutOf.size < sizeRange
  distinct : (records.map BlockRecord.addr).Nodup
  content : (table.slots.filter occupied).Perm records
  stored : table.cap ≠ 0 -> StoredBy hash table records

theorem inert_holdsBy : HoldsBy hash inert [] :=
  ⟨rfl, Nat.le_refl _, rfl, by decide, List.nodup_nil, List.Perm.nil, fun used => absurd rfl used⟩

/-- A table without records, as `calloc` gives it. -/
theorem stored_zeroed {cap len k : Nat} (pow : cap = 2 ^ k) (fits : cap < sizeRange) :
    StoredBy hash ⟨List.replicate cap .empty, cap, len⟩ [] := by
  have nothing : (List.replicate cap BlockRecord.empty).filter occupied = [] := by
    rw [List.filter_replicate]
    rfl
  refine ⟨⟨List.length_replicate, ⟨k, pow⟩, fits, List.Perm.of_eq nothing, List.nodup_nil, ?_⟩, ?_⟩
  · rw [pow]
    exact Nat.two_pow_pos k
  · intro place found inside here
    rcases Option.bind_eq_some_iff.mp here with ⟨record, at_, isKey⟩
    have same := List.eq_of_mem_replicate (List.mem_of_getElem? at_)
    rw [same] at isKey
    cases isKey

/-- A request for empty slots is refused, or they are given. -/
theorem ends_allocZeroed {count : Nat} (some_ : 0 < count) {default : DefaultAl}
    {post : Option (List BlockRecord) -> DefaultAl -> Prop}
    (refused : forall later, DefaultAl.allocZeroed count default = some (none, later) -> post none later)
    (given : forall later, count * BlockRecord.layoutOf.size < sizeRange ->
      post (some (List.replicate count .empty)) later) :
    Ends (DefaultAl.allocZeroed count) default post := by
  have either : Ends (DefaultAl.allocZeroed count) default fun slots _ => slots = none ∨
      slots = some (List.replicate count .empty) ∧ count * BlockRecord.layoutOf.size < sizeRange := by
    rw [DefaultAl.allocZeroed]
    rcases BlockRecord.layoutOf.ckdArray_cases count with ⟨none_, _⟩ | ⟨some_layout, fits⟩
    · rw [none_]
      exact (ends_pure _ _ _).mpr (Or.inl rfl)
    · have size : BlockRecord.layoutOf.size = 32 := rfl
      have positive : ¬ BlockRecord.layoutOf.size * count = 0 := by
        rw [size]
        omega
      rw [Nat.mul_comm] at fits
      simp only [some_layout, if_neg positive, ends_bind, Run.ends_get, Run.ends_set]
      rw [ends_ite]
      exact ⟨fun _ => (ends_pure _ _ _).mpr (Or.inr ⟨rfl, fits⟩), fun _ => (ends_pure _ _ _).mpr (Or.inl rfl)⟩
  rcases either with ⟨slots, later, ran, rfl | ⟨rfl, fits⟩⟩
  · exact ⟨none, later, ran, refused later ran⟩
  · exact ⟨_, later, ran, given later fits⟩

namespace HoldsBy

variable (holds : HoldsBy hash table records)

include holds

theorem nil_of_unused (unused : table.cap = 0) : records = [] := by
  have len := holds.len
  have half := holds.half
  exact List.length_eq_zero_iff.mp (by omega)

/-- Every old record goes to its place in the new slots. -/
theorem ends_rehash {fresh : BlockTable} (stored : StoredBy hash fresh [])
    (room : records.length < fresh.cap) {post : BlockTable -> S -> Prop}
    (done : forall slots, StoredBy hash { fresh with slots := slots } records ->
      post { fresh with slots := slots } s) :
    Ends (countUp (table.rehashBy hash) table.cap 0 fresh) s post := by
  -- the records of the slots before `i` are in the new ones
  refine ends_countUp (fun i t u => u = s ∧ exists slots, t = { fresh with slots := slots } ∧
    StoredBy hash { fresh with slots := slots } ((table.slots.take i).filter occupied)) (Nat.zero_add _) ?_ ?_
    ⟨rfl, fresh.slots, rfl, stored⟩
  · rintro i t u _ inside ⟨rfl, slots, rfl, stored⟩
    have within : i < table.slots.length := holds.length.symm ▸ inside
    have at_ : table.slots[i]? = some table.slots[i] := List.getElem?_eq_getElem within
    have split_ : (table.slots.take (i + 1)).filter occupied =
        (table.slots.take i).filter occupied ++ [table.slots[i]].filter occupied := by
      rw [List.take_add_one, at_, List.filter_append]
      rfl
    simp only [rehashBy, slot, at_, ends_bind, ends_demand_some]
    by_cases real : table.slots[i].addr ≠ 0
    · have isTaken : occupied table.slots[i] = true := bne_iff_ne.mpr real
      rw [List.filter_cons_of_pos isTaken, List.filter_nil] at split_
      have sub : ((table.slots.take (i + 1)).filter occupied).Sublist (table.slots.filter occupied) :=
        (List.take_sublist _ _).filter _
      have distinct := ((holds.content.map BlockRecord.addr).nodup_iff.mpr holds.distinct).sublist
        (sub.map BlockRecord.addr)
      have count := sub.length_le
      rw [holds.content.length_eq] at count
      rw [split_] at distinct count
      rw [List.map_append, List.nodup_append'] at distinct
      rw [List.length_append, List.length_singleton] at count
      have new : forall record, record ∈ (table.slots.take i).filter occupied ->
          record.addr ≠ table.slots[i].addr := by
        intro record there same
        exact distinct.2.2 (List.mem_map_of_mem there) (List.mem_singleton.mpr same)
      rw [if_pos real]
      simp only [ends_bind]
      apply stored.ends_probe
      intro place steps reached others either
      have empty := stored.empty_of_fresh new either
      have placed := stored.put real reached empty new (Nat.lt_of_le_of_lt count room)
      have there : place < slots.length := by
        have inRange : place < fresh.cap := by
          rw [← reached.place]
          exact Nat.mod_lt _ stored.cap_pos
        exact stored.length.symm ▸ inRange
      simp only [setSlot, ends_bind, ends_require, there, true_and, ends_pure]
      refine ⟨_, rfl, ?_⟩
      rw [split_]
      exact placed.perm (List.perm_append_singleton _ _).symm
    · have isFree : ¬ occupied table.slots[i] = true := fun taken => real (bne_iff_ne.mp taken)
      rw [List.filter_cons_of_neg isFree, List.filter_nil, List.append_nil] at split_
      rw [if_neg real, ends_pure, split_]
      exact ⟨rfl, slots, rfl, stored⟩
  · rintro t u ⟨rfl, slots, rfl, stored⟩
    rw [← holds.length, List.take_length] at stored
    exact done slots (stored.perm holds.content)

/-- The new capacity is a power of two with room for one record more. -/
theorem newCap_eq : exists k, table.newCap = 2 ^ k ∧ 2 * (table.len + 1) ≤ 2 ^ k := by
  have half := holds.half
  have small := holds.small
  have size : BlockRecord.layoutOf.size = 32 := rfl
  have sizeRange_eq : sizeRange = 2 ^ 64 := rfl
  rw [size, sizeRange_eq] at small
  by_cases used : table.cap ≠ 0
  · rcases (holds.stored used).pow with ⟨k, cap⟩
    have twice : wrapMul 2 table.cap = 2 * table.cap := wrapMul_eq (by rw [sizeRange_eq]; omega)
    refine ⟨k + 1, ?_, ?_⟩
    · rw [newCap, if_pos used, twice, cap, Nat.pow_succ, Nat.mul_comm]
    · rw [Nat.pow_succ, ← cap]
      omega
  · have unused : table.cap = 0 := not_not.mp used
    refine ⟨6, if_neg used, ?_⟩
    omega

/-- The table gets more slots, or nothing happens. -/
theorem ends_grow {default : DefaultAl} {post : Bool × BlockTable -> DefaultAl -> Prop}
    (refused : forall later, DefaultAl.allocZeroed table.newCap default = some (none, later) ->
      post (false, table) later)
    (grown : forall fresh later, StoredBy hash fresh records -> fresh.len = table.len ->
      2 * (fresh.len + 1) ≤ fresh.cap -> fresh.cap * BlockRecord.layoutOf.size < sizeRange ->
      post (true, fresh) later) :
    Ends (table.growBy hash) default post := by
  have half := holds.half
  have len := holds.len
  rcases holds.newCap_eq with ⟨k, cap_eq, room⟩
  rw [growBy, ends_bind]
  apply ends_allocZeroed (cap_eq ▸ Nat.two_pow_pos k)
  · exact fun later none_ => (ends_pure _ _ _).mpr (refused later none_)
  · intro later fits
    have cap_lt : table.newCap < sizeRange := Nat.lt_of_le_of_lt (Nat.le_mul_of_pos_right _ (by decide)) fits
    simp only [ends_bind, ends_pure]
    apply holds.ends_rehash (stored_zeroed cap_eq cap_lt) (show records.length < table.newCap by omega)
    intro slots stored
    exact grown _ _ stored rfl (cap_eq.symm ▸ room) fits

/-- A record with a new address is put in, or the table could not grow. -/
theorem ends_insert {default : DefaultAl} (real : entry.addr ≠ 0)
    (fresh : forall record, record ∈ records -> record.addr ≠ entry.addr)
    {post : Bool × BlockTable -> DefaultAl -> Prop}
    (refused : forall later, table.cap < 2 * (table.len + 1) ->
      DefaultAl.allocZeroed table.newCap default = some (none, later) -> post (false, table) later)
    (inserted : forall after later, HoldsBy hash after (entry :: records) -> post (true, after) later) :
    Ends (table.insertBy hash entry) default post := by
  have distinct : ((entry :: records).map BlockRecord.addr).Nodup := by
    rw [List.map_cons, List.nodup_cons]
    refine ⟨?_, holds.distinct⟩
    intro inside
    rcases List.mem_map.mp inside with ⟨record, there, same⟩
    exact fresh record there same
  -- there is room: the record goes to its place
  have place : forall {room : BlockTable} {middle : DefaultAl}, StoredBy hash room records ->
      room.len = table.len -> 2 * (room.len + 1) ≤ room.cap ->
      room.cap * BlockRecord.layoutOf.size < sizeRange ->
      Ends (room.placeBy hash entry) middle fun after later => post (true, after) later := by
    intro room middle stored len half small
    have count := holds.len
    apply stored.ends_place real fresh (by omega)
    intro slots placed
    exact inserted _ _ ⟨by rw [List.length_cons]; exact congrArg (· + 1) (len.trans count), half, placed.length,
      small, distinct, placed.content, fun _ => ⟨⟨placed.length, placed.pow, placed.fits, placed.content,
        placed.distinct, placed.room⟩, placed.probed⟩⟩
  have half := holds.half
  have small := holds.small
  have size : BlockRecord.layoutOf.size = 32 := rfl
  rw [size] at small
  have sizeRange_eq : sizeRange = 2 ^ 64 := rfl
  have twice : wrapMul 2 (table.len + 1) = 2 * (table.len + 1) :=
    wrapMul_eq (by rw [sizeRange_eq] at small ⊢; omega)
  simp only [insertBy, ends_bind, ends_require, real, ne_eq, not_false_eq_true, true_and, twice]
  by_cases full : 2 * (table.len + 1) > table.cap
  · rw [if_pos full]
    simp only [ends_bind]
    apply holds.ends_grow
    · intro later none_
      simp only [Bool.false_eq_true, if_false, ends_pure]
      exact refused later full none_
    · intro grown later stored len half small
      simp only [if_true, ends_bind, ends_pure]
      exact place stored len half small
  · rw [if_neg full]
    simp only [ends_bind, ends_pure]
    exact place (holds.stored (by omega)) rfl (by omega) holds.small

/-- An address is found exactly if a record has it. -/
theorem ends_find {post : Option BlockRecord -> S -> Prop}
    (found : forall record, record ∈ records -> record.addr = addr -> post (some record) s)
    (absent : (forall record, record ∈ records -> record.addr ≠ addr) -> post none s) :
    Ends (table.findBy hash addr) s post := by
  by_cases unused : table.cap = 0
  · simp only [findBy, if_pos unused, ends_pure]
    apply absent
    rw [holds.nil_of_unused unused]
    exact fun _ inside => absurd inside List.not_mem_nil
  · exact (holds.stored unused).ends_find found absent

/-- A record is taken out, if one has the address. -/
theorem ends_take {post : Option BlockRecord × BlockTable -> S -> Prop}
    (absent : (forall record, record ∈ records -> record.addr ≠ addr) -> post (none, table) s)
    (taken : forall record after, record ∈ records -> record.addr = addr ->
      HoldsBy hash after (records.erase record) -> post (some record, after) s) :
    Ends (table.takeBy hash addr) s post := by
  by_cases unused : table.cap = 0
  · simp only [takeBy, if_pos unused, ends_pure]
    apply absent
    rw [holds.nil_of_unused unused]
    exact fun _ inside => absurd inside List.not_mem_nil
  · have half := holds.half
    apply (holds.stored unused).ends_take absent
    intro record slots member same stored
    refine taken record _ member same ⟨?_, ?_, stored.length, holds.small, stored.distinct, stored.content,
      fun _ => ⟨⟨stored.length, stored.pow, stored.fits, stored.content, stored.distinct, stored.room⟩,
        stored.probed⟩⟩
    · rw [List.length_erase_of_mem member, ← holds.len]
    · dsimp only
      omega

end HoldsBy

/-! ## The table of the code -/

/-- A table in use, and its records. -/
structure Stored (table : BlockTable) (records : List BlockRecord) : Prop
    extends Filled table records where
  probed : Probed table.cap table.keyAt table.home

/-- The table is the set of the records: at most half full, or not yet made. -/
structure Holds (table : BlockTable) (records : List BlockRecord) : Prop where
  len : table.len = records.length
  half : 2 * table.len ≤ table.cap
  length : table.slots.length = table.cap
  small : table.cap * BlockRecord.layoutOf.size < sizeRange
  distinct : (records.map BlockRecord.addr).Nodup
  content : (table.slots.filter occupied).Perm records
  stored : table.cap ≠ 0 -> Stored table records

theorem holds_iff : Holds table records <-> HoldsBy hashU64 table records := by
  constructor
  · rintro ⟨len, half, length, small, distinct, content, stored⟩
    exact ⟨len, half, length, small, distinct, content, fun used => ⟨(stored used).toFilled, (stored used).probed⟩⟩
  · rintro ⟨len, half, length, small, distinct, content, stored⟩
    exact ⟨len, half, length, small, distinct, content, fun used => ⟨(stored used).toFilled, (stored used).probed⟩⟩

theorem inert_holds : Holds inert [] := holds_iff.mpr inert_holdsBy

namespace Holds

variable (holds : Holds table records)

include holds

/-- A record with a new address is put in, or the table could not grow. -/
theorem ends_insert {default : DefaultAl} (real : entry.addr ≠ 0)
    (fresh : forall record, record ∈ records -> record.addr ≠ entry.addr)
    {post : Bool × BlockTable -> DefaultAl -> Prop}
    (refused : forall later, post (false, table) later)
    (inserted : forall after later, Holds after (entry :: records) -> post (true, after) later) :
    Ends (table.insert entry) default post :=
  (holds_iff.mp holds).ends_insert real fresh (fun later _ _ => refused later)
    fun after later held => inserted after later (holds_iff.mpr held)

/-- An address is found exactly if a record has it. -/
theorem ends_find {post : Option BlockRecord -> S -> Prop}
    (found : forall record, record ∈ records -> record.addr = addr -> post (some record) s)
    (absent : (forall record, record ∈ records -> record.addr ≠ addr) -> post none s) :
    Ends (table.find addr) s post :=
  (holds_iff.mp holds).ends_find found absent

/-- A record is taken out, if one has the address. -/
theorem ends_take {post : Option BlockRecord × BlockTable -> S -> Prop}
    (absent : (forall record, record ∈ records -> record.addr ≠ addr) -> post (none, table) s)
    (taken : forall record after, record ∈ records -> record.addr = addr ->
      Holds after (records.erase record) -> post (some record, after) s) :
    Ends (table.take addr) s post :=
  (holds_iff.mp holds).ends_take absent fun record after inside same held =>
    taken record after inside same (holds_iff.mpr held)

end Holds
end BlockTable
end TerseDsa
