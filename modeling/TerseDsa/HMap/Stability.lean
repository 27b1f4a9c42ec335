import TerseDsa.HMap.Discipline

namespace TerseDsa

open Foundation Run HMap

/-!
# Entries stay, and walks are exact

An entry is the node at its address for as long as it is in the map: whatever
else happens to the map or to other objects, the node is there, under its key,
with its value.  A walk over a map passes every entry once, also when the
entry that it is on is dropped under way.
-/

variable {K V C : Type}

namespace HMap

variable {heap later : HMapMem K V} {self after : HMap K} {table changed others : HMapTable K V}
  {entry : HMapEntry K V} {key : K} {val : Option V} {entries : List (HMapEntry K V)}

/-! ## What memory says of a table -/

/-- The heap and the fields of a map leave no choice of the table. -/
theorem Rep.unique (rep : Rep heap.blocks self table) (also : Rep heap.blocks self others) :
    table = others := by
  rcases Option.eq_none_or_eq_some self.buckets with bare | ⟨array, buckets⟩
  · rw [rep.none_iff.mp bare, also.none_iff.mp bare]
  · rcases rep.array array buckets with ⟨slots, ⟨_, _, here⟩, chains⟩
    rcases also.array array buckets with ⟨slots', ⟨_, _, here'⟩, chains'⟩
    rw [here] at here'
    cases here'
    have sameLength : table.length = others.length := chains.length.symm.trans chains'.length
    refine List.ext_getElem? fun idx => ?_
    by_cases inside : idx < table.length
    · have within : idx < others.length := sameLength ▸ inside
      have atSlot := List.getElem?_eq_getElem (l := slots) (i := idx)
        (by rw [chains.length]; exact inside)
      have first := List.getElem?_eq_getElem inside
      have second := List.getElem?_eq_getElem within
      have sameAddrs := Seg.unique (chains.chain _ _ _ atSlot first)
        (chains'.chain _ _ _ atSlot second)
      rw [first, second]
      refine congrArg some (List.ext_getElem (by simpa [addrs] using congrArg List.length sameAddrs) ?_)
      intro place inLeft inRight
      refine Holds.eq_of_addr
        (also.holds _ (mem_flatten_of_bucket second (List.getElem_mem inRight)))
        (rep.holds _ (mem_flatten_of_bucket first (List.getElem_mem inLeft))) ?_
      have same := congrArg (fun list => list[place]?) sameAddrs
      simp only [addrs, List.getElem?_map, List.getElem?_eq_getElem inLeft,
        List.getElem?_eq_getElem inRight, Option.map_some, Option.some.injEq] at same
      exact same
    · rw [List.getElem?_eq_none (Nat.le_of_not_lt inside),
        List.getElem?_eq_none (by rw [← sameLength]; exact Nat.le_of_not_lt inside)]

/-! ## One operation -/

/-- The entry is there under its key, and with its value unless overwritten. -/
def Stays (entry : HMapEntry K V) (overwritten : Prop) (later : List (HMapEntry K V)) : Prop :=
  exists same, same ∈ later ∧ same.addr = entry.addr ∧ same.key = entry.key ∧
    (¬ overwritten -> same.val = entry.val)

theorem Stays.of_mem (member : entry ∈ entries) {overwritten : Prop} :
    Stays entry overwritten entries :=
  ⟨entry, member, rfl, rfl, fun _ => rfl⟩

theorem Stays.mono {narrow wide : Prop} (stays : Stays entry narrow entries)
    (widen : narrow -> wide) : Stays entry wide entries := by
  rcases stays with ⟨same, member, addr, keys, vals⟩
  exact ⟨same, member, addr, keys, fun not_ => vals fun narrow => not_ (widen narrow)⟩

theorem Stays.trans {first second : Prop} {middle last : List (HMapEntry K V)}
    (stays : Stays entry first middle)
    (onward : forall same, same ∈ middle -> same.key = entry.key -> Stays same second last) :
    Stays entry (first ∨ second) last := by
  rcases stays with ⟨same, member, addr, keys, vals⟩
  rcases onward same member keys with ⟨again, member', addr', keys', vals'⟩
  refine ⟨again, member', addr'.trans addr, keys'.trans keys, fun not_ => ?_⟩
  rw [not_or] at not_
  exact (vals' not_.2).trans (vals not_.1)

theorem isEntry_eq_true {hash : Hash} (found : isEntry self key hash entry = true) :
    self.eq entry.key key = true := by
  unfold isEntry at found
  rw [Bool.and_eq_true] at found
  exact found.2

variable {before final : List (HMapEntry K V)}

theorem Inserts.stays {out : Status × Option Bool} (inserts : Inserts self key val before out final)
    (distinct : (addrs before).Nodup) (member : entry ∈ before) :
    Stays entry (self.eq entry.key key = true) final := by
  cases inserts with
  | replaced found inside matches_ =>
      refine ⟨_, List.mem_map_of_mem member, overwrite_addr, overwrite_key, fun not_ => ?_⟩
      rw [overwrite_of_ne]
      intro same
      rw [List.inj_on_of_nodup_map distinct member inside same] at not_
      exact not_ (isEntry_eq_true matches_)
  | added new _ absent perm => exact .of_mem (perm.mem_iff.mpr (List.mem_cons_of_mem _ member))
  | refused _ absent perm => exact .of_mem (perm.mem_iff.mpr member)

theorem InsertsAll.stays {pairs : List (K × Option V)} {st : Status}
    (inserts : InsertsAll self pairs before st final) (distinct : (addrs before).Nodup)
    (member : entry ∈ before) :
    Stays entry (exists pair, pair ∈ pairs ∧ self.eq entry.key pair.1 = true) final := by
  induction inserts generalizing entry with
  | done before => exact .of_mem member
  | @again key val rest isNew st before middle after first distinct' others ih =>
      have onward : forall same, same ∈ middle -> same.key = entry.key ->
          Stays same (exists pair, pair ∈ rest ∧ self.eq entry.key pair.1 = true) after := by
        intro same inside sameKey
        rw [← sameKey]
        exact ih distinct' inside
      refine ((first.stays distinct member).trans onward).mono ?_
      rintro (here | ⟨pair, inRest, equal⟩)
      · exact ⟨_, List.mem_cons_self, here⟩
      · exact ⟨pair, List.mem_cons_of_mem _ inRest, equal⟩
  | stopped first =>
      exact (first.stays distinct member).mono fun here => ⟨_, List.mem_cons_self, here⟩

theorem GetsOrInserts.stays {out : Status × Option Addr} {overwritten : Prop}
    (gets : GetsOrInserts self key val before out final) (member : entry ∈ before) :
    Stays entry overwritten final := by
  cases gets with
  | found => exact .of_mem member
  | added new _ absent perm => exact .of_mem (perm.mem_iff.mpr (List.mem_cons_of_mem _ member))
  | refused _ absent perm => exact .of_mem (perm.mem_iff.mpr member)

theorem Takes.stays {out : Bool × Option (K × Option V)} {overwritten : Prop}
    (takes : Takes self key before out final) (member : entry ∈ before)
    (different : self.eq entry.key key = false) : Stays entry overwritten final := by
  cases takes with
  | taken gone left right found split =>
      subst split
      have notGone : entry ≠ gone := by
        rintro rfl
        rw [isEntry_eq_true found] at different
        cases different
      refine .of_mem ?_
      rw [List.mem_append, List.mem_cons] at member
      rw [List.mem_append]
      exact member.imp_right fun inside => inside.resolve_left notGone
  | absent => exact .of_mem member

end HMap

/-! ## Walks that collect what they pass -/

namespace HMap

variable {heap later : HMapMem K V} {self after : HMap K} {table changed : HMapTable K V}
  {entry : HMapEntry K V} {entries : List (HMapEntry K V)}

/-- The entries that a walk passes, in order. -/
def walk (map : HMap K) : Run (HMapMem K V) (List (HMapEntry K V)) :=
  forEach map (fun addr passed => do
    let node ← readNode addr
    return .again (passed ++ [⟨addr, node.hash, node.key, node.val⟩])) id []

theorem ends_walk (rep : Rep heap.blocks self table) (shape : Shape self table)
    {post : List (HMapEntry K V) -> HMapMem K V -> Prop} (holds : post table.flatten heap) :
    Ends (walk self) heap post := by
  refine ends_forEach shape (fun rest passed h => h = heap ∧ table.flatten = passed ++ rest)
    (fun rest passed h ⟨same, _⟩ => same ▸ rep) ?_ ?_ ⟨rfl, rfl⟩
  · rintro entry rest passed h ⟨before, split⟩ ⟨rfl, whole⟩
    have member : entry ∈ table.flatten := by
      rw [whole]
      exact List.mem_append_right _ List.mem_cons_self
    simp only [ends_bind, ends_readNode (rep.holds entry member), ends_pure, true_and]
    rw [whole, List.append_assoc]
    rfl
  · rintro passed h ⟨rfl, whole⟩
    rw [List.append_nil] at whole
    exact whole ▸ holds

/-- What a walk does with the entry it is on. -/
inductive Drop where
  | keep
  | byNode
  | byKey

/-- Drop entries while walking, the next node being taken before. -/
def sweep (map : HMap K) (how : Addr -> Drop) : Run (HMapMem K V) (HMap K × List Addr) :=
  forEachSafe map (fun node map passed => do
    match how node with
    | .keep => return (map, passed ++ [node])
    | .byNode => do
        let map ← removeNode (V := V) map node
        return (map, passed ++ [node])
    | .byKey => do
        let key ← nodeKey (V := V) map node
        let (_, map) ← remove (V := V) map key
        return (map, passed ++ [node])) []

/-- Whether an entry is kept. -/
def Drop.keeps (how : Addr -> Drop) (entry : HMapEntry K V) : Bool :=
  match how entry.addr with
  | .keep => true
  | _ => false

/-- In a list of different entries an entry has one place. -/
theorem split_unique {left right left' right' : List (HMapEntry K V)}
    (distinct : (addrs (left ++ entry :: right)).Nodup)
    (same : left ++ entry :: right = left' ++ entry :: right') : left = left' ∧ right = right' := by
  have parts := List.nodup_append.mp (List.Nodup.of_map _ distinct)
  have notLeft : entry ∉ left := fun inside => parts.2.2 entry inside entry List.mem_cons_self rfl
  have notRight : entry ∉ right := (List.nodup_cons.mp parts.2.1).1
  exact ((List.append_cons_inj_of_notMem notLeft notRight).mp same).imp_right And.right

/-- A lookup by an entry's own key takes out that entry. -/
theorem Takes.own {out : Bool × Option (K × Option V)} {left right final : List (HMapEntry K V)}
    (takes : Takes self entry.key (left ++ entry :: right) out final) (lawful : Lawful self)
    (keyed : Keyed self (left ++ entry :: right))
    (distinct : (addrs (left ++ entry :: right)).Nodup) : final = left ++ right := by
  have member : entry ∈ left ++ entry :: right := List.mem_append_right _ List.mem_cons_self
  generalize whole : left ++ entry :: right = before at takes
  cases takes with
  | taken gone left' right' found split =>
      have inside : gone ∈ left ++ entry :: right := by
        rw [whole, split]
        exact List.mem_append_right _ List.mem_cons_self
      have same := keyed.eq_of_eq lawful inside member (isEntry_eq_true found)
      subst same
      rcases split_unique distinct (whole.trans split) with ⟨rfl, rfl⟩
      rfl
  | absent missing =>
      have none_ := missing entry (whole ▸ member)
      rw [keyed.isEntry_eq lawful member, lawful.equivalence.refl] at none_
      cases none_

/-- A walk that drops entries passes all that were there, and leaves those it
did not drop. -/
theorem ends_sweep (rep : Rep heap.blocks self table) (shape : Shape self table) {how : Addr -> Drop}
    (lawful : (exists node, how node = .byKey) -> Lawful self ∧ Keyed self table.flatten)
    {post : HMap K × List Addr -> HMapMem K V -> Prop}
    (holds : forall (after : HMap K) (changed : HMapTable K V) (later : HMapMem K V),
      Steps heap.blocks later.blocks self after table changed ->
      changed.flatten = table.flatten.filter (Drop.keeps how) ->
      post (after, addrs table.flatten) later) :
    Ends (sweep self how) heap post := by
  refine ends_forEachSafe (fun left rest map passed h =>
    exists (now : HMapTable K V) (before : List (HMapEntry K V)),
      Steps heap.blocks h.blocks self map table now ∧ now.flatten = left ++ rest ∧
      table.flatten = before ++ rest ∧ passed = addrs before ∧
      left = before.filter (Drop.keeps how))
    ?_ ?_ ?_ ⟨table, [], Steps.refl rep shape, rfl, rfl, rfl, rfl⟩
  · rintro left rest map passed h ⟨now, _, steps, whole, _⟩
    exact ⟨now, steps.rep, steps.shape, whole⟩
  · rintro left entry rest map passed h ⟨now, before, steps, whole, all, rfl, kept⟩
    have member : entry ∈ now.flatten := by
      rw [whole]
      exact List.mem_append_right _ List.mem_cons_self
    have distinct : (addrs (left ++ entry :: rest)).Nodup := whole ▸ steps.rep.distinct
    have onward : table.flatten = (before ++ [entry]) ++ rest := by
      rw [all, List.append_assoc]
      rfl
    have passedOn : addrs before ++ [entry.addr] = addrs (before ++ [entry]) := by
      rw [addrs_append]
      rfl
    have dropped : how entry.addr ≠ .keep -> left = (before ++ [entry]).filter (Drop.keeps how) := by
      intro drops
      rw [List.filter_append, ← kept, List.filter_singleton, Drop.keeps]
      cases answer : how entry.addr with
      | keep => exact absurd answer drops
      | byNode => simp
      | byKey => simp
    cases answer : how entry.addr with
    | keep =>
        simp only [ends_pure]
        refine ⟨left ++ [entry], now, before ++ [entry], steps, ?_, onward, passedOn, ?_⟩
        · rw [whole, List.append_assoc]
          rfl
        · rw [List.filter_append, ← kept, List.filter_singleton, Drop.keeps, answer]
          rfl
    | byNode =>
        simp only [ends_bind, ends_pure]
        refine ends_removeNode steps.rep steps.shape member ?_
        intro after changed later left' right' more split fewer
        rcases split_unique distinct (whole.symm.trans split) with ⟨rfl, rfl⟩
        exact ⟨left, changed, before ++ [entry], steps.trans more, fewer, onward, passedOn,
          dropped (by rw [answer]; exact Drop.noConfusion)⟩
    | byKey =>
        rcases lawful ⟨_, answer⟩ with ⟨lawfulSelf, keyedAll⟩
        have lawfulMap := lawfulSelf.congr steps.eq_eq steps.hasher_eq
        have keyed : Keyed map (left ++ entry :: rest) := by
          refine (keyedAll.sublist ?_).congr steps.eq_eq steps.hasher_eq
          rw [all, kept]
          exact List.filter_sublist.append_right _
        simp only [ends_bind, ends_nodeKey steps.rep steps.shape member, ends_pure]
        refine ends_remove steps.rep steps.shape ?_
        intro out after changed later more takes
        rw [whole] at takes
        exact ⟨left, changed, before ++ [entry], steps.trans more,
          takes.own lawfulMap keyed distinct, onward, passedOn,
          dropped (by rw [answer]; exact Drop.noConfusion)⟩
  · rintro left map passed h ⟨now, before, steps, whole, all, rfl, kept⟩
    rw [List.append_nil] at whole all
    rw [← all] at kept ⊢
    exact holds map now h steps (whole.trans kept)

end HMap

/-! ## Runs of a program -/

namespace MapOp

/-- The operation neither takes out nor releases the entry at `node`, whose
key is `key`. -/
def Spares (map : HMap K) (heap : HMapMem K V) (node : Addr) (key : K) : MapOp K V C -> Prop
  | insert .. | extend .. | getOrInsert .. | reserve _ | shrinkToFit => True
  | remove other | take other => map.eq key other = false
  | removeNode other => other ≠ node
  | retain pred ctx => Ends (walk map) heap fun entries _ =>
      node ∈ addrs (retained pred ctx entries).1
  | clear => False

/-- The operation may write a value under a key equal to `key`. -/
def Overwrites (eq : K -> K -> Bool) (key : K) : MapOp K V C -> Prop
  | insert other _ => eq key other = true
  | extend keys _ => exists other, other ∈ keys.elems ∧ eq key other = true
  | _ => False

/-- An operation that spares an entry leaves it where it is. -/
theorem stays_run {heap : HMapMem K V} {self : HMap K} {table : HMapTable K V}
    {entry : HMapEntry K V} (op : MapOp K V C) (rep : Rep heap.blocks self table)
    (shape : Shape self table) (allowed : op.Allowed self heap) (member : entry ∈ table.flatten)
    (spares : op.Spares self heap entry.addr entry.key) :
    Ends (op.run self) heap (fun result later => exists changed,
      Steps heap.blocks later.blocks self result.2 table changed ∧
      Stays entry (op.Overwrites self.eq entry.key) changed.flatten) := by
  have moved : forall {changed : HMapTable K V} {overwritten : Prop},
      changed.flatten.Perm table.flatten -> Stays entry overwritten changed.flatten :=
    fun perm => .of_mem (perm.mem_iff.mpr member)
  cases op with
  | insert key val =>
      simp only [run, ends_bind]
      refine ends_insert rep shape (Or.inl rfl) ?_
      intro out after changed later steps _ _ inserts
      simp only [ends_pure]
      exact ⟨changed, steps, inserts.stays rep.distinct member⟩
  | extend keys vals =>
      rcases allowed with ⟨sameKeys, sameVals, sameLen⟩
      simp only [run]
      refine ends_extend rep shape sameKeys sameVals sameLen ?_
      intro st after changed later steps inserts
      refine ⟨changed, steps, (inserts.stays rep.distinct member).mono ?_⟩
      rintro ⟨pair, inside, equal⟩
      exact ⟨pair.1, (List.of_mem_zip inside).1, equal⟩
  | getOrInsert key val =>
      simp only [run, ends_bind]
      refine ends_getOrInsert rep shape (Or.inl rfl) ?_
      rintro ⟨st, node⟩ after changed later steps _ _ gets
      cases node with
      | none =>
          simp only [ends_pure]
          exact ⟨changed, steps, gets.stays member⟩
      | some node =>
          rcases gets.node_mem with ⟨found, inside, rfl⟩
          simp only [readEntry, ends_bind, ends_nodeKey steps.rep steps.shape inside,
            ends_nodeVal steps.rep steps.shape inside, ends_pure]
          exact ⟨changed, steps, gets.stays member⟩
  | remove key =>
      refine ends_remove rep shape ?_
      intro out after changed later steps takes
      exact ⟨changed, steps, takes.stays member spares⟩
  | take key =>
      simp only [run, ends_bind]
      refine ends_take rep shape ?_
      intro out after changed later steps takes
      simp only [ends_pure]
      exact ⟨changed, steps, takes.stays member spares⟩
  | removeNode node =>
      rcases Walked.mem allowed rep shape with ⟨gone, inside, rfl⟩
      simp only [run, readEntry, ends_bind, ends_nodeKey rep shape inside,
        ends_nodeVal rep shape inside, ends_pure]
      refine ends_removeNode rep shape inside ?_
      intro after changed later left right steps whole fewer
      refine ⟨changed, steps, .of_mem ?_⟩
      have different : entry ≠ gone := by
        rintro rfl
        exact spares rfl
      rw [whole, List.mem_append, List.mem_cons] at member
      rw [fewer, List.mem_append]
      exact member.imp_right fun there => there.resolve_left different
  | retain pred ctx =>
      have asks : Asks (fun key val ctx => pure (pred key val ctx)) pred (owned self table) heap :=
        fun key val ctx later _ => (ends_pure _ _ _).mpr ⟨rfl, rfl⟩
      have kept : entry.addr ∈ addrs (retained pred ctx table.flatten).1 := by
        have walked : Ends (walk self) heap fun entries _ => entries = table.flatten :=
          ends_walk rep shape rfl
        rcases Ends.and spares walked with ⟨_, _, _, inside, rfl⟩
        exact inside
      rcases mem_addrs.mp kept with ⟨same, inside, addr⟩
      have equal : same = entry :=
        List.inj_on_of_nodup_map rep.distinct (sift_sublist.subset inside) member addr
      simp only [run, ends_bind]
      refine ends_retain rep shape asks ?_
      intro after changed later steps keeps
      simp only [ends_pure]
      exact ⟨changed, steps, .of_mem (by rw [keeps, ← equal]; exact inside)⟩
  | clear => exact spares.elim
  | reserve newCap =>
      simp only [run]
      refine ends_reserve rep shape ?_ ?_
      · intro later same
        exact ⟨table, by rw [same]; exact Steps.refl rep shape, .of_mem member⟩
      · intro after changed later steps perm _
        exact ⟨changed, steps, moved perm⟩
  | shrinkToFit =>
      simp only [run]
      refine ends_shrinkToFit rep shape ?_
      intro st after changed later steps perm _
      exact ⟨changed, steps, moved perm⟩

end MapOp

namespace Call

variable {s : HMapObjects K V} {tables : Nat -> HMapTable K V} {obj : Nat} {entry : HMapEntry K V}

/-- The call, which reports `st`, leaves the entry at `node` in the object `obj`. -/
def Spares (s : HMapObjects K V) (obj : Nat) (node : Addr) (key : K) (st : Status) :
    Call K V C -> Prop
  | map self op => self = obj -> op.Spares (s.objs obj) s.mem node key
  | copyAssign self _ | setCopyAssign self _ => self = obj -> st ≠ .ok
  | call => obj ∉ call.touched

/-- The call may write a value under a key of `obj` equal to `key`. -/
def Overwrites (eq : K -> K -> Bool) (obj : Nat) (key : K) : Call K V C -> Prop
  | map self op => self = obj ∧ op.Overwrites eq key
  | _ => False

/-- In the later state the entry is in the object, which compares keys as before. -/
def EntryStays (s : HMapObjects K V) (obj : Nat) (entry : HMapEntry K V) (overwritten : Prop)
    (later : HMapObjects K V) : Prop :=
  exists changed : Nat -> HMapTable K V, Invariant later changed ∧
    (later.objs obj).al = (s.objs obj).al ∧ (later.objs obj).eq = (s.objs obj).eq ∧
    Stays entry overwritten (changed obj).flatten

/-- Where the object and its table are as before, so is the entry. -/
theorem stays_of_leads {later : HMapObjects K V} {touched : List Nat} {overwritten : Prop}
    (leads : Leads s tables touched later) (outside : obj ∉ touched)
    (member : entry ∈ (tables obj).flatten) :
    EntryStays s obj entry overwritten later := by
  rcases leads with ⟨changed, now, frame⟩
  have ⟨sameMap, sameTable⟩ := frame obj outside
  refine ⟨changed, now, by rw [sameMap], by rw [sameMap], .of_mem ?_⟩
  rw [sameTable]
  exact member

theorem stays_map (op : MapOp K V C) (invariant : Invariant s tables)
    (allowed : (map obj op).Allowed s) (member : entry ∈ (tables obj).flatten)
    (spares : op.Spares (s.objs obj) s.mem entry.addr entry.key) :
    Ends (run (map obj op)) s fun _ later =>
      EntryStays s obj entry (op.Overwrites (s.objs obj).eq entry.key) later := by
  have held := invariant.heldBy obj
  have acts : Ends (run (map obj op)) s fun _ later => exists changed,
      Steps s.mem.blocks later.mem.blocks (s.objs obj) (later.objs obj) (tables obj) changed ∧
      Stays entry (op.Overwrites (s.objs obj).eq entry.key) changed.flatten := by
    simp only [run, ends_bind, Objects.ends_load, Objects.ends_within]
    refine (op.stays_run held.rep (held.shape allowed.1) allowed.2 member spares).mono ?_
    rintro result mem ⟨changed, steps, stays⟩
    simp only [Objects.ends_store, ends_pure, Function.update_self]
    exact ⟨changed, steps, stays⟩
  refine ((invariant.run _ allowed).and acts).mono ?_
  rintro st later ⟨⟨changed, now, _⟩, changed', steps, stays⟩
  have same : changed obj = changed' := (Invariant.heldBy now obj).rep.unique steps.rep
  exact ⟨changed, now, (congrArg HMap.al steps.kind :), steps.eq_eq, same ▸ stays⟩

/-- A call that spares an entry leaves it where it is. -/
theorem stays (call : Call K V C) (invariant : Invariant s tables) (allowed : call.Allowed s)
    (member : entry ∈ (tables obj).flatten) {st : Status} {later : HMapObjects K V}
    (ran : call.run s = some (st, later)) (spares : call.Spares s obj entry.addr entry.key st) :
    EntryStays s obj entry (call.Overwrites (s.objs obj).eq obj entry.key) later := by
  have leads := (invariant.run call allowed).of_eq ran
  have elsewhere : forall {self : Nat} {overwritten : Prop}, call.touched = [self] -> self ≠ obj ->
      EntryStays s obj entry overwritten later := fun only different =>
    stays_of_leads leads (by rw [only, List.mem_singleton]; exact different.symm) member
  have assigned : forall {self : Nat} {overwritten : Prop}, call.touched = [self] ->
      (self = obj -> st ≠ .ok) -> (st ≠ .ok -> later.objs = s.objs ∧ later.mem.blocks = s.mem.blocks) ->
      EntryStays s obj entry overwritten later := by
    intro self overwritten only fails refused
    by_cases mine : self = obj
    · rcases refused (fails mine) with ⟨sameObjs, same⟩
      exact stays_of_leads (Objects.Leads.unchanged invariant sameObjs same) List.not_mem_nil member
    · exact elsewhere only mine
  cases call with
  | map self op =>
      by_cases mine : self = obj
      · subst mine
        rcases (stays_map op invariant allowed member (spares rfl)).of_eq ran with
          ⟨changed, now, als, eqs, stays⟩
        exact ⟨changed, now, als, eqs, stays.mono fun overwrites => ⟨rfl, overwrites⟩⟩
      · exact elsewhere rfl mine
  | copyAssign self other =>
      exact assigned rfl spares ((invariant.copyAssigned allowed.1 allowed.2.1 allowed.2.2).of_eq
        ran).2.2.2
  | setCopyAssign self other =>
      exact assigned rfl spares ((invariant.setCopyAssigned allowed.1 allowed.2.1
        allowed.2.2).of_eq ran).2
  | _ => exact stays_of_leads leads spares member

end Call

/-- The states that a program comes to by calls that all spare one entry. -/
inductive Spared (s : HMapObjects K V) (obj : Nat) (node : Addr) (key : K) :
    List (Call K V C) -> HMapObjects K V -> Prop where
  | start : Spared s obj node key [] s
  | call {calls : List (Call K V C)} {middle later : HMapObjects K V} {st : Status}
      (before : Spared s obj node key calls middle) (call : Call K V C)
      (allowed : call.Allowed middle) (spares : call.Spares middle obj node key st)
      (ran : call.run middle = some (st, later)) :
      Spared s obj node key (calls ++ [call]) later

/-- Over a whole run that spares an entry, it stays. -/
theorem Spared.stays {s later : HMapObjects K V} {tables : Nat -> HMapTable K V} {obj : Nat}
    {entry : HMapEntry K V} {calls : List (Call K V C)}
    (spared : Spared s obj entry.addr entry.key calls later) (invariant : Invariant s tables)
    (member : entry ∈ (tables obj).flatten) :
    Call.EntryStays s obj entry
      (exists call, call ∈ calls ∧ call.Overwrites (s.objs obj).eq obj entry.key) later := by
  induction spared with
  | start => exact ⟨tables, invariant, rfl, rfl, .of_mem member⟩
  | call before call allowed spares ran ih =>
      rcases ih with ⟨changed, now, als, eqs, same, inside, addr, keys, vals⟩
      rw [← addr, ← keys] at spares
      rcases call.stays now allowed inside ran spares with
        ⟨last, then_, als', eqs', again, inside', addr', keys', vals'⟩
      refine ⟨last, then_, als'.trans als, eqs'.trans eqs, again, inside', addr'.trans addr,
        keys'.trans keys, fun not_ => ?_⟩
      rw [vals' ?_, vals ?_]
      · rintro ⟨earlier, before, overwrites⟩
        exact not_ ⟨earlier, List.mem_append_left _ before, overwrites⟩
      · intro overwrites
        rw [eqs, keys] at overwrites
        exact not_ ⟨call, List.mem_append_right _ List.mem_cons_self, overwrites⟩

/-- A borrowed node stays in its map through every run that spares its entry,
and names its key and, unless it is overwritten, its value.  A walk passes
every node once, whether nothing changes or the entries passed are dropped on
the way; `retain` asks once about each entry that was there, in the order of
the walk, and keeps those it is told to keep. -/
theorem Reachable.stable {s : HMapObjects K V} {obj : Nat} (reachable : Reachable C s)
    (real : (s.objs obj).al.isSome = true) :
    (forall (node : Addr) (key : K) (val : Option V), Walked (s.objs obj) s.mem node ->
      Ends (MapOp.readEntry (s.objs obj) node) s.mem (fun entry _ => entry = (key, val)) ->
      forall (calls : List (Call K V C)) (later : HMapObjects K V),
        Spared s obj node key calls later ->
        Walked (later.objs obj) later.mem node ∧
        Ends (nodeKey (V := V) (later.objs obj) node) later.mem (fun found _ => found = key) ∧
        ((forall call, call ∈ calls -> ¬ call.Overwrites (s.objs obj).eq obj key) ->
          Ends (nodeVal (later.objs obj) node) later.mem (fun found _ => found = val))) ∧
    exists table : HMapTable K V, Rep s.mem.blocks (s.objs obj) table ∧
      (addrs table.flatten).Nodup ∧ table.flatten.length = (s.objs obj).len ∧
      Ends (walk (s.objs obj)) s.mem (fun entries later =>
        entries = table.flatten ∧ later = s.mem) ∧
      (forall how : Addr -> Drop, ((exists node, how node = .byKey) -> Lawful (s.objs obj)) ->
        Ends (sweep (s.objs obj) how) s.mem (fun result later =>
          result.2 = addrs table.flatten ∧ Ends (walk result.1) later fun entries _ =>
            entries = table.flatten.filter (Drop.keeps how))) ∧
      forall (pred : Answer K V C) (ctx : C),
        Ends (retain (s.objs obj) (fun key val ctx => pure (pred key val ctx)) ctx) s.mem
          (fun result later => result.2 = (retained pred ctx table.flatten).2 ∧
            Ends (walk result.1) later fun entries _ =>
              entries = (retained pred ctx table.flatten).1) := by
  rcases reachable.invariant with ⟨tables, invariant⟩
  have held := invariant.heldBy obj
  have shape := held.shape real
  refine ⟨?_, tables obj, held.rep, held.rep.distinct, shape.len.symm,
    ends_walk held.rep shape ⟨rfl, rfl⟩, ?_, ?_⟩
  · intro node key val walked reads calls later spared
    rcases walked.mem held.rep shape with ⟨entry, member, rfl⟩
    simp only [MapOp.readEntry, ends_bind, ends_nodeKey held.rep shape member,
      ends_nodeVal held.rep shape member, ends_pure, Prod.mk.injEq] at reads
    rcases reads with ⟨rfl, rfl⟩
    rcases spared.stays invariant member with ⟨changed, now, als, _, same, inside, addr, keys, vals⟩
    have heldNow := Invariant.heldBy now obj
    have shapeNow := heldNow.shape (by rw [als]; exact real)
    rw [← addr]
    refine ⟨walked_of_mem heldNow.rep shapeNow inside, ?_, fun untouched => ?_⟩
    · exact (ends_nodeKey heldNow.rep shapeNow inside).mpr keys
    · refine (ends_nodeVal heldNow.rep shapeNow inside).mpr (vals ?_)
      rintro ⟨call, called, overwrites⟩
      exact untouched call called overwrites
  · intro how lawful
    refine ends_sweep held.rep shape (fun some_ => ⟨lawful some_, held.keyed (lawful some_)⟩) ?_
    intro after changed later steps kept
    exact ⟨rfl, ends_walk steps.rep steps.shape kept⟩
  · intro pred ctx
    refine ends_retain held.rep shape (fun key val ctx later _ =>
      (ends_pure _ _ _).mpr ⟨rfl, rfl⟩) ?_
    intro after changed later steps kept
    exact ⟨rfl, ends_walk steps.rep steps.shape kept⟩

/-- The chain of two entries gets a third, and loses the one in front of the first. -/
def recrowded : HMapObjects Nat Nat :=
  ((crowded some).after (C := Unit) (Call.map 0 (.insert 3 7))).after (C := Unit) (Call.map 0 (.remove 2))

/-- The node of the key 1 is borrowed while its neighbours change; a walk drops the entry it is on; and `retain`
is told to keep every other entry. -/
theorem Reachable.stable_crowded :
    (Walked (recrowded.objs 0) recrowded.mem 1 ∧
      Ends (nodeKey (V := Nat) (recrowded.objs 0) 1) recrowded.mem (fun found _ => found = 1) ∧
      Ends (nodeVal (recrowded.objs 0) 1) recrowded.mem fun found _ => found = some 5) ∧
    Ends (sweep ((crowded some).objs 0) fun node => if node = 2 then .byKey else .keep) (crowded some).mem
      (fun result later => result.2 = [2, 1] ∧ Ends (walk result.1) later fun entries _ =>
        entries = [⟨1, 0, 1, some 5⟩]) ∧
    Ends (retain ((crowded some).objs 0) (fun _ _ keep => pure (keep, !keep)) true) (crowded some).mem
      fun result later => result.2 = true ∧ Ends (walk result.1) later fun entries _ =>
        entries = [⟨2, 0, 2, some 6⟩] := by
  have real : ((crowded some).objs 0).al.isSome = true := rfl
  refine ⟨?_, ?_⟩
  · have walked : Walked ((crowded some).objs 0) (crowded some).mem 1 :=
      .next (.first ⟨some 2, _, rfl, rfl⟩) ⟨some 1, _, rfl, rfl⟩
    have first : Spared (crowded some) 0 1 1 [Call.map (C := Unit) 0 (.insert 3 7)] _ :=
      Spared.start.call (Call.map 0 (.insert 3 7)) ⟨rfl, trivial⟩ (fun _ => trivial)
        (show _ = some (.ok, (crowded some).after (C := Unit) (Call.map 0 (.insert 3 7))) from rfl)
    have second : Spared (crowded some) 0 1 1 [Call.map (C := Unit) 0 (.insert 3 7), Call.map 0 (.remove 2)] recrowded :=
      first.call (Call.map 0 (.remove 2)) ⟨rfl, trivial⟩ (fun _ => rfl) (show _ = some (.ok, recrowded) from rfl)
    rcases (Reachable.stable (crowded_reachable rfl rfl) real).1 1 1 (some 5) walked ⟨_, _, rfl, rfl⟩ _ _ second with ⟨inside, key, val⟩
    refine ⟨inside, key, val fun call called => ?_⟩
    rcases List.mem_cons.mp called with rfl | called
    · exact fun overwrites => Bool.false_ne_true overwrites.2
    · rcases List.mem_singleton.mp called with rfl
      exact fun overwrites => overwrites.2
  · rcases (Reachable.stable (crowded_reachable rfl rfl) real).2 with ⟨table, _, _, _, walked, sweeps, retains⟩
    have entries : table.flatten = [⟨2, 0, 2, some 6⟩, ⟨1, 0, 1, some 5⟩] := (walked.of_eq rfl).1.symm
    have swept := sweeps (fun node => if node = 2 then .byKey else .keep) fun _ => lawful_beq rfl
    have kept := retains (fun _ _ keep => (keep, !keep)) true
    rw [entries] at swept kept
    exact ⟨swept, kept⟩

end TerseDsa
