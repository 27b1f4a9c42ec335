import TerseDsa.HMap.Keys
import TerseDsa.Foundation.Assoc
import Mathlib.Order.CompletePartialOrder

namespace TerseDsa

open Foundation Run

/-!
# A map refines an association

The abstract state of a map is an association from classes of equal keys to
the stored key and its value.  `MapOp` lists the operations, `MapOp.run` calls
them, and `MapOp.Sound` says, for each operation and each outcome it can
report, what has become of the association.  `Follows` is the refinement:
every lookup answers as the association does, and after any operation, with
whatever outcome the allocator made of it, there is a sound next association
that the map follows.
-/

variable {K V C : Type}

/-- The operations of a map.  The predicate of `retain` keeps state behind its
`ctx`; nodes are named by their addresses. -/
inductive MapOp (K V C : Type) where
  | insert (key : K) (val : V)
  | extend (keys : SpanView K) (vals : SpanView V)
  | getOrInsert (key : K) (valIfAbsent : V)
  | remove (key : K)
  | take (key : K)
  | removeNode (node : Addr)
  | retain (pred : HMap.Answer K V C) (ctx : C)
  | clear
  | reserve (newCap : Nat)
  | shrinkToFit

namespace MapOp

/-- What an operation reports.  A node that is handed out, or is about to be
removed, is reported as the key and the value that are read through it. -/
@[reducible] def Out : MapOp K V C -> Type
  | insert .. => Status × Option Bool
  | extend .. => Status
  | getOrInsert .. => Status × Option (K × Option V)
  | remove .. => Bool
  | take .. => Bool × Option (K × Option V)
  | removeNode .. => K × Option V
  | retain .. => C
  | clear => Unit
  | reserve .. => Status
  | shrinkToFit => Status

/-- Read the entry of a node. -/
def readEntry (map : HMap K) (node : Addr) : Run (HMapMem K V) (K × Option V) := do
  let key ← HMap.nodeKey map node
  let val ← HMap.nodeVal map node
  return (key, val)

/-- Call the operation. -/
def run : (op : MapOp K V C) -> HMap K -> Run (HMapMem K V) (op.Out × HMap K)
  | insert key val, map => do
      let (st, isNew, map) ← map.insert key (some val)
      return ((st, isNew), map)
  | extend keys vals, map => map.extend keys vals
  | getOrInsert key val, map => do
      let (st, node, map) ← map.getOrInsert key (some val)
      match node with
      | none => return ((st, none), map)
      | some node =>
          let entry ← readEntry map node
          return ((st, some entry), map)
  | remove key, map => map.remove (V := V) key
  | take key, map => do
      let (taken, entry, map) ← map.take key
      return ((taken, entry), map)
  | removeNode node, map => do
      let entry ← readEntry map node
      let map ← map.removeNode (V := V) node
      return (entry, map)
  | retain pred ctx, map => do
      let (map, ctx) ← map.retain (fun key val ctx => pure (pred key val ctx)) ctx
      return (ctx, map)
  | clear, map => do
      let map ← map.clear (V := V)
      return ((), map)
  | reserve newCap, map => map.reserve (V := V) newCap
  | shrinkToFit, map => map.shrinkToFit (V := V)

/-- What the caller has to see to: spans of the map's own layouts and of one
length, and a node of this map. -/
def Allowed (map : HMap K) (heap : HMapMem K V) : MapOp K V C -> Prop
  | extend keys vals => map.key = keys.elem ∧ map.val = vals.elem ∧ keys.len = vals.len
  | removeNode node => HMap.Walked map heap node
  | _ => True

/-- Ask the predicate about the pairs in turn; the pairs it keeps, and the
state it is left in. -/
def askAll (pred : HMap.Answer K V C) : C -> List (K × Option V) -> List (K × Option V) × C :=
  sift fun pair => pred pair.1 pair.2

open Assoc in
/-- Whether an outcome, and the association after it, are right for the
association before. -/
def Sound {classes : Setoid K} : (op : MapOp K V C) -> Assoc classes (Option V) -> op.Out ->
    Assoc classes (Option V) -> Prop
  | insert key val, before, (st, isNew), after =>
      (st = .ok ∧ isNew = some (before (cls classes key)).isNone ∧
        after = before.put key (some val)) ∨
      (st = .errNoMem ∧ isNew = none ∧ before (cls classes key) = none ∧ after = before)
  | extend keys vals, before, st, after =>
      (st = .ok ∧ after = before.putAll (keys.elems.zip (vals.elems.map some))) ∨
      (exists done rest key val, st = .errNoMem ∧
        keys.elems.zip (vals.elems.map some) = done ++ (key, val) :: rest ∧
        after = before.putAll done ∧ after (cls classes key) = none)
  | getOrInsert key val, before, (st, entry), after =>
      (st = .ok ∧ entry = before (cls classes key) ∧ entry.isSome = true ∧ after = before) ∨
      (st = .ok ∧ before (cls classes key) = none ∧ entry = some (key, some val) ∧
        after = before.put key (some val)) ∨
      (st = .errNoMem ∧ before (cls classes key) = none ∧ entry = none ∧ after = before)
  | remove key, before, removed, after =>
      removed = (before (cls classes key)).isSome ∧ after = before.drop key
  | take key, before, (taken, entry), after =>
      taken = entry.isSome ∧ entry = before (cls classes key) ∧ after = before.drop key
  | removeNode _, before, entry, after =>
      before (cls classes entry.1) = some entry ∧ after = before.drop entry.1
  | retain pred ctx, before, left, after =>
      exists order, before.Lists order ∧ after.Lists (askAll pred ctx order).1 ∧
        left = (askAll pred ctx order).2
  | clear, _, _, after => after = Assoc.empty
  | reserve _, before, _, after => after = before
  | shrinkToFit, before, _, after => after = before

end MapOp

/-- Every lookup answers as the association does, and changes nothing. -/
structure AnswersAs {classes : Setoid K} (map : HMap K) (heap : HMapMem K V)
    (assoc : Assoc classes (Option V)) : Prop where
  get : forall key, Ends (map.get key) heap (fun found later =>
    found = (assoc (Assoc.cls classes key)).map Prod.snd ∧ later = heap)
  contains : forall key, Ends (map.contains (V := V) key) heap (fun found later =>
    found = (assoc (Assoc.cls classes key)).isSome ∧ later = heap)
  find : forall key, Ends (map.find key) heap (fun node later => later = heap ∧
    match node with
    | none => assoc (Assoc.cls classes key) = none
    | some node => Ends (MapOp.readEntry map node) heap (fun entry later =>
        assoc (Assoc.cls classes key) = some entry ∧ later = heap))
  len : map.len = assoc.size

/-- The map answers as the association, now and after every run of up to so
many operations, each chosen in the light of all outcomes before it. -/
def Follows (C : Type) {classes : Setoid K} :
    Nat -> HMap K -> HMapMem K V -> Assoc classes (Option V) -> Prop
  | 0, map, heap, assoc => AnswersAs map heap assoc
  | more + 1, map, heap, assoc => AnswersAs map heap assoc ∧
      forall op : MapOp K V C, op.Allowed map heap ->
        Ends (op.run map) heap (fun result later => exists next,
          op.Sound assoc result.1 next ∧ Follows C more result.2 later next)

namespace HMap

variable {heap : HMapMem K V} {self after : HMap K} {table changed : HMapTable K V}
  {entry : HMapEntry K V} {key : K} {val : Option V} {classes : Setoid K}
  {before later : List (HMapEntry K V)} {assoc : Assoc classes (Option V)}

/-- The keys and values of some entries. -/
def bindings (entries : List (HMapEntry K V)) : List (K × Option V) :=
  entries.map fun entry => (entry.key, entry.val)

/-- The class of a key is that of the keys that `eq` finds equal to it. -/
def Compares (map : HMap K) (classes : Setoid K) : Prop :=
  forall left right, Assoc.cls classes left = Assoc.cls classes right <-> map.eq left right = true

/-! ## What the effects on entries mean for the association -/

theorem map_overwrite_split {left right : List (HMapEntry K V)}
    (distinct : (addrs (left ++ entry :: right)).Nodup) :
    (left ++ entry :: right).map (overwrite entry.addr val) =
      left ++ { entry with val := val } :: right := by
  rw [addrs_append, addrs_cons] at distinct
  have parts := List.nodup_append.mp distinct
  have keeps : forall list : List (HMapEntry K V), entry.addr ∉ addrs list ->
      list.map (overwrite entry.addr val) = list := by
    intro list outside
    conv_rhs => rw [← List.map_id list]
    refine List.map_congr_left fun other member => overwrite_of_ne ?_
    intro same
    exact outside (same ▸ addr_mem_addrs member)
  rw [List.map_append, List.map_cons, keeps left ?_, keeps right ?_, overwrite, if_pos rfl]
  · exact (List.nodup_cons.mp parts.2.1).1
  · exact fun inside => parts.2.2 _ inside _ List.mem_cons_self rfl

section Effects

variable (compares : Compares self classes) (lawful : Lawful self) (keyed : Keyed self before)
  (lists : assoc.Lists (bindings before))

include compares lawful keyed lists

/-- A key that no entry has is in no associated class. -/
theorem absent_iff :
    assoc (Assoc.cls classes key) = none <->
      forall other, other ∈ before -> isEntry self key (self.hasher key) other = false := by
  rw [lists.none_iff]
  unfold bindings
  simp only [List.mem_map, forall_exists_index, and_imp]
  constructor
  · intro absent other member
    rw [keyed.isEntry_eq lawful member, Bool.eq_false_iff]
    exact fun same => absent _ other member rfl ((compares _ _).mpr same)
  · rintro absent _ other member rfl same
    have missing := absent other member
    rw [keyed.isEntry_eq lawful member, (compares _ _).mp same] at missing
    cases missing

/-- The entry found under a key is what is associated with its class. -/
theorem present {entry : HMapEntry K V} (member : entry ∈ before)
    (found : isEntry self key (self.hasher key) entry = true) :
    Assoc.cls classes entry.key = Assoc.cls classes key ∧
      assoc (Assoc.cls classes key) = some (entry.key, entry.val) := by
  rw [keyed.isEntry_eq lawful member] at found
  have same := (compares _ _).mpr found
  exact ⟨same, (lists.mem_iff _ _).mpr ⟨List.mem_map_of_mem member, same⟩⟩

theorem added_lists (absent : forall other, other ∈ before ->
      isEntry self key (self.hasher key) other = false)
    (perm : later.Perm (entry :: before)) (sameKey : entry.key = key) (sameVal : entry.val = val) :
    (assoc.put key val).Lists (bindings later) := by
  subst sameKey
  subst sameVal
  have none_ := (absent_iff compares lawful keyed lists).mpr absent
  exact (lists.cons none_).perm (perm.map _)

theorem Inserts.sound {val : V} {out : Status × Option Bool}
    (inserts : Inserts self key (some val) before out later) (valued : self.val.size > 0)
    (distinct : (addrs before).Nodup) :
    exists next, (MapOp.insert (C := C) key val).Sound assoc out next ∧
      next.Lists (bindings later) := by
  cases inserts with
  | replaced entry member found =>
      have ⟨same, here⟩ := present compares lawful keyed lists member found
      refine ⟨assoc.put key (some val), Or.inl ⟨rfl, by rw [here]; rfl, rfl⟩, ?_⟩
      rcases List.append_of_mem member with ⟨left, right, rfl⟩
      rw [assigned, if_pos valued, map_overwrite_split distinct]
      unfold bindings at lists ⊢
      rw [List.map_append, List.map_cons] at lists ⊢
      exact lists.replace same.symm
  | added entry _ absent perm sameHash sameKey sameVal =>
      rw [stored, if_pos valued] at sameVal
      have none_ := (absent_iff compares lawful keyed lists).mpr absent
      exact ⟨_, Or.inl ⟨rfl, by rw [none_]; rfl, rfl⟩,
        added_lists compares lawful keyed lists absent perm sameKey sameVal⟩
  | refused _ absent perm =>
      exact ⟨assoc, Or.inr ⟨rfl, rfl, (absent_iff compares lawful keyed lists).mpr absent, rfl⟩,
        lists.perm (perm.map _)⟩

theorem GetsOrInserts.sound {val : V} {out : Status × Option Addr}
    (gets : GetsOrInserts self key (some val) before out later) (valued : self.val.size > 0) :
    (exists next, next.Lists (bindings later) ∧ out.1 = .errNoMem ∧ out.2 = none ∧
      (MapOp.getOrInsert (C := C) key val).Sound assoc (out.1, none) next) ∨
    (exists entry next, entry ∈ later ∧ next.Lists (bindings later) ∧
      out.2 = some entry.addr ∧
      (MapOp.getOrInsert (C := C) key val).Sound assoc (out.1, some (entry.key, entry.val))
        next) := by
  cases gets with
  | found entry member found =>
      have ⟨same, here⟩ := present compares lawful keyed lists member found
      exact Or.inr ⟨entry, assoc, member, lists, rfl, Or.inl ⟨rfl, here.symm, rfl, rfl⟩⟩
  | added entry _ absent perm sameHash sameKey sameVal =>
      rw [stored, if_pos valued] at sameVal
      have none_ := (absent_iff compares lawful keyed lists).mpr absent
      exact Or.inr ⟨entry, _, perm.mem_iff.mpr List.mem_cons_self,
        added_lists compares lawful keyed lists absent perm sameKey sameVal, rfl,
        Or.inr (Or.inl ⟨rfl, none_, by rw [sameKey, sameVal], rfl⟩)⟩
  | refused _ absent perm =>
      exact Or.inl ⟨assoc, lists.perm (perm.map _), rfl, rfl, Or.inr (Or.inr ⟨rfl,
        (absent_iff compares lawful keyed lists).mpr absent, rfl, rfl⟩)⟩

theorem Takes.sound {out : Bool × Option (K × Option V)}
    (takes : Takes self key before out later) :
    out.1 = out.2.isSome ∧ out.2 = assoc (Assoc.cls classes key) ∧
      (assoc.drop key).Lists (bindings later) := by
  cases takes with
  | taken entry left right found split =>
      subst split
      have ⟨same, here⟩ := present compares lawful keyed lists
        (List.mem_append_right _ List.mem_cons_self) found
      refine ⟨rfl, here.symm, ?_⟩
      unfold bindings at lists ⊢
      rw [List.map_append, List.map_cons] at lists
      rw [List.map_append, show assoc.drop key = assoc.drop entry.key by unfold Assoc.drop; rw [same]]
      exact lists.erase
  | absent missing =>
      have none_ := (absent_iff compares lawful keyed lists).mpr missing
      refine ⟨rfl, none_.symm, ?_⟩
      rw [Assoc.drop_absent none_]
      exact lists

end Effects

/-- Pair by pair: all of them, or those before the first refusal. -/
theorem InsertsAll.sound {pairs : List (K × Option V)} {st : Status}
    (inserts : InsertsAll self pairs before st later) (compares : Compares self classes)
    (lawful : Lawful self) (valued : self.val.size > 0)
    (given : forall pair, pair ∈ pairs -> pair.2.isSome = true) :
    Keyed self before -> (addrs before).Nodup -> forall {assoc : Assoc classes (Option V)},
      assoc.Lists (bindings before) ->
      exists next, next.Lists (bindings later) ∧
        ((st = .ok ∧ next = assoc.putAll pairs) ∨
          (exists done rest key val, st = .errNoMem ∧ pairs = done ++ (key, val) :: rest ∧
            next = assoc.putAll done ∧ next (Assoc.cls classes key) = none)) := by
  induction inserts with
  | done before => exact fun _ _ {assoc} lists => ⟨assoc, lists, Or.inl ⟨rfl, rfl⟩⟩
  | @again key val rest isNew st before middle after first distinct others ih =>
      intro keyed distinctBefore assoc lists
      rcases Option.isSome_iff_exists.mp (given (key, val) List.mem_cons_self) with ⟨raw, same⟩
      change val = some raw at same
      subst same
      rcases Inserts.sound (C := Unit) compares lawful keyed lists first valued distinctBefore with
        ⟨next, ⟨_, _, rfl⟩ | ⟨impossible, _⟩, listsNext⟩
      · rcases ih (fun pair member => given pair (List.mem_cons_of_mem _ member))
          (first.keyed lawful keyed) distinct listsNext with
          ⟨last, listsLast, ⟨ok, equal⟩ | ⟨done, tail, key', val', st', split, equal, none_⟩⟩
        · exact ⟨last, listsLast, Or.inl ⟨ok, equal⟩⟩
        · exact ⟨last, listsLast, Or.inr ⟨(key, some raw) :: done, tail, key', val', st',
            by rw [split]; rfl, equal, none_⟩⟩
      · cases impossible
  | @stopped key val rest before after first =>
      intro keyed distinctBefore assoc lists
      rcases Option.isSome_iff_exists.mp (given (key, val) List.mem_cons_self) with ⟨raw, same⟩
      change val = some raw at same
      subst same
      rcases Inserts.sound (C := Unit) compares lawful keyed lists first valued distinctBefore with
        ⟨next, ⟨impossible, _⟩ | ⟨_, _, none_, rfl⟩, listsNext⟩
      · cases impossible
      · exact ⟨next, listsNext, Or.inr ⟨[], rest, key, some raw, rfl, rfl, rfl, none_⟩⟩

/-- Asking about the entries is asking about their keys and values. -/
theorem askAll_bindings {pred : Answer K V C} {ctx : C} {entries : List (HMapEntry K V)} :
    MapOp.askAll pred ctx (bindings entries) =
      (bindings (retained pred ctx entries).1, (retained pred ctx entries).2) :=
  sift_map _

/-! ## Lookups -/

section Lookups

variable (rep : Rep heap.blocks self table) (shape : Shape self table)

include rep shape

theorem ends_readEntry (member : entry ∈ table.flatten) {post : K × Option V -> HMapMem K V -> Prop} :
    Ends (MapOp.readEntry self entry.addr) heap post <-> post (entry.key, entry.val) heap := by
  simp only [MapOp.readEntry, ends_bind, ends_nodeKey rep shape member, ends_nodeVal rep shape member,
    ends_pure]

omit rep

/-- What a lookup finds is what is associated. -/
theorem entryFor_eq (compares : Compares self classes) (lawful : Lawful self) (keyed : Keyed self table.flatten)
    (lists : assoc.Lists (bindings table.flatten)) :
    (entryFor self table key).map (fun entry => (entry.key, entry.val)) = assoc (Assoc.cls classes key) := by
  cases found : entryFor self table key with
  | none =>
      rw [(absent_iff compares lawful keyed lists).mpr (shape.lookup_none found)]
      rfl
  | some entry =>
      have ⟨member, matches_⟩ := lookup_some found
      rw [(present compares lawful keyed lists member matches_).2]
      rfl

include rep

/-- Over a table that lists the association, all lookups answer as it does. -/
theorem answersAs (compares : Compares self classes) (lawful : Lawful self) (keyed : Keyed self table.flatten)
    (lists : assoc.Lists (bindings table.flatten)) : AnswersAs self heap assoc := by
  have found_eq : forall key, (entryFor self table key).map (fun entry => (entry.key, entry.val)) =
      assoc (Assoc.cls classes key) := fun _ => entryFor_eq shape compares lawful keyed lists
  refine ⟨fun key => ?_, fun key => ?_, fun key => ?_, ?_⟩
  · refine ends_get rep shape ⟨?_, rfl⟩
    rw [← found_eq, Option.map_map]
    rfl
  · refine ends_contains rep shape ⟨?_, rfl⟩
    rw [← found_eq, Option.isSome_map]
  · refine ends_find rep shape ⟨rfl, ?_⟩
    rw [← found_eq]
    cases found : entryFor self table key with
    | none => rfl
    | some entry => exact (ends_readEntry rep shape (lookup_some found).1).mpr ⟨rfl, rfl⟩
  · rw [shape.len, ← lists.length_eq]
    exact (List.length_map _).symm

end Lookups

/-- Keys that are apart list an association, so a map has one. -/
theorem exists_lists (compares : Compares self classes) (keyed : Keyed self table.flatten) :
    exists assoc : Assoc classes (Option V), assoc.Lists (bindings table.flatten) := by
  refine Assoc.Lists.exists_of_apart (List.pairwise_map.mpr (keyed.apart.imp ?_))
  intro left right apart same
  rw [(compares _ _).mp same] at apart
  cases apart


/-! ## The refinement -/

/-- The map over the table holds the association. -/
structure Represents (map : HMap K) (heap : HMapMem K V) (table : HMapTable K V)
    (assoc : Assoc classes (Option V)) : Prop where
  rep : Rep heap.blocks map table
  shape : Shape map table
  compares : Compares map classes
  lawful : Lawful map
  valued : map.val.size > 0
  keyed : Keyed map table.flatten
  lists : assoc.Lists (bindings table.flatten)

namespace Represents

variable (represents : Represents self heap table assoc)

include represents

theorem readEntry (member : entry ∈ table.flatten)
    {post : K × Option V -> HMapMem K V -> Prop} :
    Ends (MapOp.readEntry self entry.addr) heap post <-> post (entry.key, entry.val) heap :=
  ends_readEntry represents.rep represents.shape member

theorem answersAs : AnswersAs self heap assoc :=
  HMap.answersAs represents.rep represents.shape represents.compares represents.lawful represents.keyed
    represents.lists

/-- A step that keeps the keys apart is represented again. -/
theorem step {last : HMapMem K V} {next : Assoc classes (Option V)}
    (steps : Steps heap.blocks last.blocks self after table changed)
    (keyed : Keyed self changed.flatten) (lists : next.Lists (bindings changed.flatten)) :
    Represents after last changed next := by
  refine ⟨steps.rep, steps.shape, ?_, represents.lawful.congr steps.eq_eq steps.hasher_eq, ?_,
    keyed.congr steps.eq_eq steps.hasher_eq, lists⟩
  · unfold Compares
    rw [steps.eq_eq]
    exact represents.compares
  · rw [steps.val_eq]
    exact represents.valued

/-- Whatever operation is called, and whatever the allocator answers: the
outcome is sound, and the map represents the association after it. -/
theorem run (op : MapOp K V C) (allowed : op.Allowed self heap) :
    Ends (op.run self) heap (fun result later => exists next changed,
      op.Sound assoc result.1 next ∧ Represents result.2 later changed next) := by
  rcases id represents with ⟨rep, shape, compares, lawful, valued, keyed, lists⟩
  cases op with
  | insert key val =>
      simp only [MapOp.run, ends_bind]
      refine ends_insert rep shape (Or.inl rfl) ?_
      intro out after changed later steps _ _ inserts
      simp only [ends_pure]
      rcases inserts.sound compares lawful keyed lists valued rep.distinct with
        ⟨next, sound, listsNext⟩
      exact ⟨next, changed, sound, represents.step steps (inserts.keyed lawful keyed) listsNext⟩
  | extend keys vals =>
      rcases allowed with ⟨sameKeys, sameVals, sameLen⟩
      simp only [MapOp.run]
      refine ends_extend rep shape sameKeys sameVals sameLen ?_
      intro st after changed later steps inserts
      rcases inserts.sound compares lawful valued (by
        rintro ⟨key, val⟩ member
        rcases List.mem_map.mp (List.of_mem_zip member).2 with ⟨raw, _, same⟩
        rw [← same]
        rfl) keyed rep.distinct lists with ⟨next, listsNext, sound⟩
      exact ⟨next, changed, sound, represents.step steps (inserts.keyed lawful keyed) listsNext⟩
  | getOrInsert key val =>
      simp only [MapOp.run, ends_bind]
      refine ends_getOrInsert rep shape (Or.inl rfl) ?_
      rintro ⟨st, node⟩ after changed later steps _ _ gets
      have keyedNext := gets.keyed lawful keyed
      rcases gets.sound compares lawful keyed lists valued with
        ⟨next, listsNext, _, none_, sound⟩ | ⟨entry, next, member, listsNext, some_, sound⟩
      · change node = none at none_
        subst none_
        simp only [ends_pure]
        exact ⟨next, changed, sound, represents.step steps keyedNext listsNext⟩
      · change node = some entry.addr at some_
        subst some_
        have stepped := represents.step steps keyedNext listsNext
        simp only [ends_bind, stepped.readEntry member, ends_pure]
        exact ⟨next, changed, sound, stepped⟩
  | remove key =>
      refine ends_remove rep shape ?_
      intro out after changed later steps takes
      rcases takes.sound compares lawful keyed lists with ⟨taken, entry, listsNext⟩
      refine ⟨_, changed, ⟨?_, rfl⟩, represents.step steps (takes.keyed keyed) listsNext⟩
      change out.1 = _
      rw [taken, entry]
  | take key =>
      simp only [MapOp.run, ends_bind]
      refine ends_take rep shape ?_
      intro out after changed later steps takes
      rcases takes.sound compares lawful keyed lists with ⟨taken, entry, listsNext⟩
      simp only [ends_pure]
      exact ⟨_, changed, ⟨taken, entry, rfl⟩, represents.step steps (takes.keyed keyed) listsNext⟩
  | removeNode node =>
      rcases Walked.mem allowed rep shape with ⟨entry, member, rfl⟩
      simp only [MapOp.run, ends_bind, represents.readEntry member]
      refine ends_removeNode rep shape member ?_
      intro after changed later left right steps whole fewer
      simp only [ends_pure]
      have there := (lists.mem_iff _ _).mpr ⟨List.mem_map_of_mem member, rfl⟩
      refine ⟨_, changed, ⟨there, rfl⟩, represents.step steps ?_ ?_⟩
      · rw [fewer]
        rw [whole] at keyed
        exact keyed.sublist ((List.sublist_cons_self entry right).append_left left)
      · rw [fewer]
        rw [whole] at lists
        unfold bindings at lists ⊢
        rw [List.map_append, List.map_cons] at lists
        rw [List.map_append]
        exact lists.erase
  | retain pred ctx =>
      have asks : Asks (fun key val ctx => pure (pred key val ctx)) pred (owned self table) heap :=
        fun key val ctx later _ => (ends_pure _ _ _).mpr ⟨rfl, rfl⟩
      simp only [MapOp.run, ends_bind]
      refine ends_retain rep shape asks ?_
      intro after changed later steps kept
      have sub : (retained pred ctx table.flatten).1.Sublist table.flatten := sift_sublist
      rcases lists.exists_of_sublist (sub.map _) with ⟨next, listsNext⟩
      simp only [ends_pure]
      refine ⟨next, changed, ⟨bindings table.flatten, lists, ?_, ?_⟩, represents.step steps ?_ ?_⟩
      · rw [askAll_bindings]
        exact listsNext
      · rw [askAll_bindings]
      · rw [kept]
        exact keyed.sublist sub
      · rw [kept]
        exact listsNext
  | clear =>
      simp only [MapOp.run, ends_bind]
      refine ends_clear rep shape ?_
      intro later steps
      simp only [ends_pure]
      refine ⟨Assoc.empty, _, rfl, represents.step steps ?_ ?_⟩
      · rw [List.flatten_replicate_nil]
        exact Keyed.nil
      · rw [List.flatten_replicate_nil]
        exact Assoc.Lists.empty
  | reserve newCap =>
      simp only [MapOp.run]
      refine ends_reserve rep shape ?_ ?_
      · intro later same
        exact ⟨assoc, table, rfl, represents.step (by rw [same]; exact Steps.refl rep shape) keyed
          lists⟩
      · intro after changed later steps perm _
        exact ⟨assoc, changed, rfl, represents.step steps (keyed.perm lawful perm)
          (lists.perm (perm.map _))⟩
  | shrinkToFit =>
      simp only [MapOp.run]
      refine ends_shrinkToFit rep shape ?_
      intro st after changed later steps perm _
      exact ⟨assoc, changed, rfl, represents.step steps (keyed.perm lawful perm)
        (lists.perm (perm.map _))⟩

/-- Operation after operation, a map that represents an association follows it. -/
theorem follows (more : Nat) : Follows C more self heap assoc := by
  induction more generalizing self heap table assoc with
  | zero => exact represents.answersAs
  | succ more ih =>
      refine ⟨represents.answersAs, fun op allowed => (represents.run op allowed).mono ?_⟩
      rintro result later ⟨next, changed, sound, stepped⟩
      exact ⟨next, sound, ih stepped⟩

end Represents

/-- A map that has just been built holds the empty association. -/
theorem Born.represents {blocks : Blocks AlTag (HMapCell K V)} {key val node : Layout}
    {keyOffset valOffset : Nat} {hasher : K -> Hash} {eq : K -> K -> Bool} {al : Al}
    (born : Born blocks heap.blocks self table) (empty : table.flatten = [])
    (kind : forgetBuckets self = bare key val node keyOffset valOffset hasher eq al)
    (compares : Compares self classes) (lawful : Lawful self) (valued : val.size > 0) :
    Represents self heap table (Assoc.empty : Assoc classes (Option V)) := by
  refine ⟨born.rep, born.shape, compares, lawful, ?_, ?_, ?_⟩
  · rw [show self.val = val from (congrArg HMap.val kind :)]
    exact valued
  · rw [empty]
    exact Keyed.nil
  · rw [empty]
    exact Assoc.Lists.empty

/-- `init` and `init_cap` give a map that follows the empty association, for
every pattern of answers the heap's script may hold. -/
theorem init_follows (C : Type) {key val node : Layout} {keyOffset valOffset : Nat}
    {hasher : K -> Hash} {eq : K -> K -> Bool} {al : Al} (classes : Setoid K)
    (buildable : Buildable key val al node keyOffset valOffset) (valType : val.isType = true)
    (same : forall left right, classes left right <-> eq left right = true)
    (hash : forall left right, eq left right = true -> hasher left = hasher right)
    (cap more : Nat) (heap : HMapMem K V) :
    Ends (init key val hasher eq al) heap (fun map later =>
      Follows C more map later (Assoc.empty : Assoc classes (Option V))) ∧
    Ends (initCap cap key val hasher eq al) heap (fun out later =>
      (exists map, out = (.ok, some map) ∧
        Follows C more map later (Assoc.empty : Assoc classes (Option V))) ∨
      out = (.errNoMem, none)) := by
  have valued : val.size > 0 := by
    unfold Layout.isType at valType
    simp only [Bool.and_eq_true, decide_eq_true_eq] at valType
    exact valType.1.2
  have compares : forall map : HMap K, map.eq = eq -> Compares map classes := by
    rintro map rfl left right
    rw [← same]
    exact Quotient.eq
  have lawful : forall map : HMap K, map.eq = eq -> map.hasher = hasher -> Lawful map := by
    rintro map rfl rfl
    refine ⟨⟨?_, ?_, ?_⟩, hash⟩
    · exact fun key => (same key key).mp (classes.refl key)
    · exact fun equal => (same _ _).mp (classes.symm ((same _ _).mpr equal))
    · exact fun first second =>
        (same _ _).mp (classes.trans ((same _ _).mpr first) ((same _ _).mpr second))
  constructor
  · refine ends_init buildable valType ?_
    intro map table later born empty kind
    exact (born.represents empty kind (compares map (congrArg HMap.eq kind :))
      (lawful map (congrArg HMap.eq kind :) (congrArg HMap.hasher kind :)) valued).follows more
  · refine ends_initCap buildable valType (fun _ _ _ => Or.inr rfl) ?_
    intro map table later born empty _ kind
    exact Or.inl ⟨map, rfl,
      (born.represents empty kind (compares map (congrArg HMap.eq kind :))
        (lawful map (congrArg HMap.eq kind :) (congrArg HMap.hasher kind :)) valued).follows more⟩

/-- Numbers compared up to a factor, in a heap that refuses its first request. -/
theorem init_follows_parity :
    Ends (init (V := Nat) ⟨8, 8⟩ ⟨4, 4⟩ (fun key : Nat => BitVec.ofNat 64 (key % 2))
        (fun left right => left % 2 == right % 2) (some 0))
      ⟨fun _ => none, fun asked => if asked = 0 then none else some asked, 0⟩
      (fun map later => Follows Nat 5 map later
        (Assoc.empty : Assoc (Setoid.comap (fun key : Nat => key % 2) ⊥) (Option Nat))) :=
  (init_follows Nat (Setoid.comap (fun key : Nat => key % 2) ⊥)
    (show Buildable ⟨8, 8⟩ ⟨4, 4⟩ (some 0) ⟨32, 8⟩ 16 24 from
      ⟨by decide, by decide, by decide, by decide⟩) (by decide)
    (fun left right => by rw [beq_iff_eq]; exact Iff.rfl)
    (fun left right equal => by rw [beq_iff_eq.mp equal]) 0 5 _).1

end HMap
end TerseDsa
