import TerseDsa.HMap.Building
import Mathlib.Data.List.Pairwise

namespace TerseDsa

open Foundation Run

/-!
# Keys

Up to here nothing was assumed of the callbacks.  When `eq` is an equivalence
and equal keys hash alike, the entries of a map hold keys that are pairwise
unequal, each under its own hash, and a lookup finds the one entry whose key
is equal to the key looked for.  Every operation keeps this.
-/

namespace HMap

variable {K V C : Type} {heap : HMapMem K V} {self after : HMap K}
  {table changed : HMapTable K V} {entry : HMapEntry K V} {key : K} {val : Option V}
  {entries before later : List (HMapEntry K V)}

/-- What the callbacks have to satisfy. -/
structure Lawful (map : HMap K) : Prop where
  equivalence : Equivalence fun left right => map.eq left right = true
  hash : forall left right, map.eq left right = true -> map.hasher left = map.hasher right

/-- The equality of a lawful map, on keys. -/
def Lawful.classes (lawful : Lawful self) : Setoid K := ⟨_, lawful.equivalence⟩

theorem Lawful.congr (lawful : Lawful self) (eqs : after.eq = self.eq)
    (hashers : after.hasher = self.hasher) : Lawful after :=
  ⟨eqs ▸ lawful.equivalence, by rw [eqs, hashers]; exact lawful.hash⟩

theorem Lawful.comm (lawful : Lawful self) (left right : K) :
    self.eq left right = self.eq right left :=
  Bool.eq_iff_iff.mpr ⟨lawful.equivalence.symm, lawful.equivalence.symm⟩

/-- Every entry has the hash of its key, and no two have equal keys. -/
structure Keyed (map : HMap K) (entries : List (HMapEntry K V)) : Prop where
  hashed : forall entry, entry ∈ entries -> entry.hash = map.hasher entry.key
  apart : entries.Pairwise fun left right => map.eq left.key right.key = false

namespace Keyed

theorem nil : Keyed self ([] : List (HMapEntry K V)) :=
  ⟨fun _ member => absurd member List.not_mem_nil, List.Pairwise.nil⟩

theorem congr (keyed : Keyed self entries) (eqs : after.eq = self.eq)
    (hashers : after.hasher = self.hasher) : Keyed after entries :=
  ⟨by rw [hashers]; exact keyed.hashed, by rw [eqs]; exact keyed.apart⟩

theorem perm (keyed : Keyed self entries) (lawful : Lawful self) (same : later.Perm entries) :
    Keyed self later :=
  ⟨fun entry member => keyed.hashed entry (same.mem_iff.mp member),
    (same.pairwise_iff fun {left right} different =>
      (lawful.comm right.key left.key).trans different).mpr keyed.apart⟩

theorem sublist (keyed : Keyed self entries) (sub : later.Sublist entries) : Keyed self later :=
  ⟨fun entry member => keyed.hashed entry (sub.subset member), keyed.apart.sublist sub⟩

/-- Under its own hash an entry is found exactly by the keys equal to its own. -/
theorem isEntry_eq (keyed : Keyed self entries) (lawful : Lawful self)
    (member : entry ∈ entries) :
    isEntry self key (self.hasher key) entry = self.eq entry.key key := by
  unfold isEntry
  by_cases same : self.eq entry.key key = true
  · rw [keyed.hashed entry member, lawful.hash _ _ same, beq_self_eq_true, Bool.true_and]
  · rw [Bool.eq_false_iff.mpr same, Bool.and_false]

theorem cons (keyed : Keyed self entries) (lawful : Lawful self)
    (hashed : entry.hash = self.hasher entry.key)
    (absent : forall other, other ∈ entries ->
      isEntry self entry.key (self.hasher entry.key) other = false) :
    Keyed self (entry :: entries) := by
  refine ⟨?_, List.pairwise_cons.mpr ⟨?_, keyed.apart⟩⟩
  · intro other member
    rcases List.mem_cons.mp member with rfl | inside
    · exact hashed
    · exact keyed.hashed other inside
  · intro other member
    rw [lawful.comm, ← keyed.isEntry_eq lawful member]
    exact absent other member

theorem overwritten (keyed : Keyed self entries) {addr : Addr} :
    Keyed self (entries.map (overwrite addr val)) := by
  refine ⟨?_, List.pairwise_map.mpr ?_⟩
  · intro other member
    rcases List.mem_map.mp member with ⟨old, inside, rfl⟩
    rw [overwrite_hash, overwrite_key]
    exact keyed.hashed old inside
  · simp only [overwrite_key]
    exact keyed.apart

/-- Two entries whose keys are equal are one entry. -/
theorem eq_of_eq (keyed : Keyed self entries) (lawful : Lawful self) {other : HMapEntry K V}
    (member : entry ∈ entries) (inside : other ∈ entries)
    (same : self.eq entry.key other.key = true) : entry = other := by
  by_contra different
  have symmetric : Std.Symm fun left right : HMapEntry K V =>
      self.eq left.key right.key = false :=
    ⟨fun left right apart => (lawful.comm right.key left.key).trans apart⟩
  have apart := keyed.apart.forall member inside different
  rw [same] at apart
  cases apart

end Keyed

/-! ## Every operation keeps the keys apart -/

theorem Inserts.keyed {out : Status × Option Bool} (inserts : Inserts self key val before out later)
    (lawful : Lawful self) (keyed : Keyed self before) : Keyed self later := by
  cases inserts with
  | replaced entry member found => exact keyed.overwritten
  | added entry _ absent perm sameHash sameKey sameVal =>
      subst sameKey
      exact (keyed.cons lawful sameHash absent).perm lawful perm
  | refused _ absent perm => exact keyed.perm lawful perm

theorem InsertsAll.keyed {pairs : List (K × Option V)} {st : Status}
    (inserts : InsertsAll self pairs before st later) (lawful : Lawful self)
    (keyed : Keyed self before) : Keyed self later := by
  induction inserts with
  | done before => exact keyed
  | again first _ _ ih => exact ih (first.keyed lawful keyed)
  | stopped first => exact first.keyed lawful keyed

theorem GetsOrInserts.keyed {out : Status × Option Addr}
    (gets : GetsOrInserts self key val before out later) (lawful : Lawful self)
    (keyed : Keyed self before) : Keyed self later := by
  cases gets with
  | found entry member found => exact keyed
  | added entry _ absent perm sameHash sameKey sameVal =>
      subst sameKey
      exact (keyed.cons lawful sameHash absent).perm lawful perm
  | refused _ absent perm => exact keyed.perm lawful perm

theorem Takes.keyed {out : Bool × Option (K × Option V)} (takes : Takes self key before out later)
    (keyed : Keyed self before) : Keyed self later := by
  cases takes with
  | taken entry left right found split =>
      subst split
      exact keyed.sublist ((List.sublist_cons_self entry right).append_left left)
  | absent missing => exact keyed

/-- Copies of entries have the keys of the entries. -/
theorem Keyed.copies (keyed : Keyed self entries) (lawful : Lawful self)
    (copies : (later.map (copied self)).Perm (entries.map (copied self))) :
    Keyed self later := by
  have hashed : forall content, content ∈ later.map (copied self) ->
      content.1 = self.hasher content.2.1 := by
    intro content member
    rcases List.mem_map.mp (copies.mem_iff.mp member) with ⟨entry, inside, rfl⟩
    exact keyed.hashed entry inside
  have apart : (later.map (copied self)).Pairwise fun left right =>
      self.eq left.2.1 right.2.1 = false := by
    refine (copies.pairwise_iff ?_).mpr (List.pairwise_map.mpr keyed.apart)
    intro left right different
    exact (lawful.comm right.2.1 left.2.1).trans different
  exact ⟨fun entry member => hashed _ (List.mem_map_of_mem member), List.pairwise_map.mp apart⟩

/-! ## Lookups -/

/-- The entry that a lookup of the key finds. -/
def entryFor (self : HMap K) (table : HMapTable K V) (key : K) : Option (HMapEntry K V) :=
  lookup self table key (self.hasher key)

theorem ends_find (rep : Rep heap.blocks self table) (shape : Shape self table)
    {post : Option Addr -> HMapMem K V -> Prop}
    (holds : post ((entryFor self table key).map HMapEntry.addr) heap) :
    Ends (find self key) heap post := by
  simp only [find, ends_bind, ends_assertHMap (shape.asserts rep)]
  exact ends_findNode rep shape holds

theorem ends_contains (rep : Rep heap.blocks self table) (shape : Shape self table)
    {post : Bool -> HMapMem K V -> Prop}
    (holds : post (entryFor self table key).isSome heap) :
    Ends (contains (V := V) self key) heap post := by
  simp only [contains, ends_bind, ends_assertHMap (shape.asserts rep)]
  refine ends_findNode rep shape ?_
  simp only [ends_pure, Option.isSome_map]
  exact holds

theorem ends_get (rep : Rep heap.blocks self table) (shape : Shape self table)
    {post : Option (Option V) -> HMapMem K V -> Prop}
    (holds : post ((entryFor self table key).map HMapEntry.val) heap) :
    Ends (get self key) heap post := by
  simp only [get, ends_bind, ends_assertHMap (shape.asserts rep)]
  refine ends_findNode rep shape ?_
  unfold entryFor at holds
  cases found : lookup self table key (self.hasher key) with
  | none =>
      rw [found] at holds
      simpa only [Option.map_none, ends_pure] using holds
  | some entry =>
      rw [found] at holds
      simp only [Option.map_some, ends_bind,
        ends_readNode (rep.holds entry (lookup_some found).1), ends_pure]
      exact holds

/-- A walk starts at the first entry of the table. -/
theorem ends_firstNode (rep : Rep heap.blocks self table) (shape : Shape self table)
    {post : Option Addr -> HMapMem K V -> Prop} (holds : post (addrs table.flatten).head? heap) :
    Ends (firstNode self) heap post := by
  simp only [firstNode, ends_bind, ends_assertHMap (shape.asserts rep)]
  exact ends_firstFrom rep shape holds

/-- A walk steps to the entry that follows. -/
theorem ends_nodeNext (rep : Rep heap.blocks self table) (shape : Shape self table)
    {before rest : List (HMapEntry K V)} (split : table.flatten = before ++ entry :: rest)
    {post : Option Addr -> HMapMem K V -> Prop} (holds : post (addrs rest).head? heap) :
    Ends (nodeNext self entry.addr) heap post := by
  simp only [nodeNext, ends_bind, ends_assertHMap (shape.asserts rep)]
  exact ends_nextNode rep shape split holds

theorem ends_nodeKey (rep : Rep heap.blocks self table) (shape : Shape self table)
    (member : entry ∈ table.flatten) {post : K -> HMapMem K V -> Prop} :
    Ends (nodeKey (V := V) self entry.addr) heap post <-> post entry.key heap := by
  simp only [nodeKey, ends_bind, ends_assertHMap (shape.asserts rep),
    ends_readNode (rep.holds entry member), nodeOf, ends_pure]

theorem ends_nodeVal (rep : Rep heap.blocks self table) (shape : Shape self table)
    (member : entry ∈ table.flatten) {post : Option V -> HMapMem K V -> Prop} :
    Ends (nodeVal self entry.addr) heap post <-> post entry.val heap := by
  simp only [nodeVal, ends_bind, ends_assertHMap (shape.asserts rep),
    ends_readNode (rep.holds entry member), nodeOf, ends_pure]

/-- A lookup finds the one entry whose key is equal to the key looked for. -/
theorem entryFor_iff (shape : Shape self table) (lawful : Lawful self)
    (keyed : Keyed self table.flatten) :
    entryFor self table key = some entry <->
      entry ∈ table.flatten ∧ self.eq entry.key key = true := by
  constructor
  · intro found
    have ⟨member, matches_⟩ := lookup_some found
    rw [keyed.isEntry_eq lawful member] at matches_
    exact ⟨member, matches_⟩
  · rintro ⟨member, same⟩
    cases found : entryFor self table key with
    | none =>
        have missing := shape.lookup_none found entry member
        rw [keyed.isEntry_eq lawful member, same] at missing
        cases missing
    | some other =>
        have ⟨inside, matches_⟩ := lookup_some found
        rw [keyed.isEntry_eq lawful inside] at matches_
        rw [keyed.eq_of_eq lawful inside member
          (lawful.equivalence.trans matches_ (lawful.equivalence.symm same))]

end HMap

/-!
## Walks over the entries

A walk by `first_node` and `node_next` passes the entries in the order of the
table.  The rule for `FOR_EACH` runs over the entries still to come; that of
`FOR_EACH_SAFE` lets the body drop the entry it is on, since the table then
loses that entry and keeps the order of the others.
-/

namespace HMap

variable {K V C : Type} {heap : HMapMem K V} {self after : HMap K}
  {table changed : HMapTable K V} {entry : HMapEntry K V}

/-- The nodes that a walk comes to. -/
inductive Walked (map : HMap K) (heap : HMapMem K V) : Addr -> Prop where
  | first {node : Addr}
      (found : Ends (firstNode map) heap fun found _ => found = some node) :
      Walked map heap node
  | next {node after : Addr} (before : Walked map heap node)
      (found : Ends (nodeNext map node) heap fun found _ => found = some after) :
      Walked map heap after

theorem Walked.mem {node : Addr} (walked : Walked self heap node) (rep : Rep heap.blocks self table)
    (shape : Shape self table) : exists entry, entry ∈ table.flatten ∧ entry.addr = node := by
  have ofHead : forall (rest : List (HMapEntry K V)) {node : Addr},
      (forall entry, entry ∈ rest -> entry ∈ table.flatten) -> (addrs rest).head? = some node ->
      exists entry, entry ∈ table.flatten ∧ entry.addr = node := by
    intro rest node sub head
    cases rest with
    | nil => cases head
    | cons entry rest =>
        exact ⟨entry, sub entry List.mem_cons_self, Option.some.inj head⟩
  induction walked with
  | first found =>
      have same : Ends (firstNode self) heap fun found _ =>
          found = (addrs table.flatten).head? := ends_firstNode rep shape rfl
      rcases found.and same with ⟨_, _, _, first, second⟩
      exact ofHead _ (fun _ => id) (second.symm.trans first)
  | next before found ih =>
      rcases ih with ⟨entry, member, rfl⟩
      rcases List.append_of_mem member with ⟨left, right, split⟩
      have same : Ends (nodeNext self entry.addr) heap fun found _ =>
          found = (addrs right).head? := ends_nodeNext rep shape split rfl
      rcases found.and same with ⟨_, _, _, first, second⟩
      refine ofHead right (fun other inside => ?_) (second.symm.trans first)
      rw [split]
      exact List.mem_append_right _ (List.mem_cons_of_mem _ inside)

theorem walked_of_mem (rep : Rep heap.blocks self table) (shape : Shape self table)
    (member : entry ∈ table.flatten) : Walked self heap entry.addr := by
  rcases List.append_of_mem member with ⟨left, right, split⟩
  induction left using List.reverseRecOn generalizing entry right with
  | nil => exact .first (ends_firstNode rep shape (by rw [split]; rfl))
  | append_singleton left last ih =>
      have before : table.flatten = left ++ last :: entry :: right := by
        rw [split, List.append_assoc]
        rfl
      have inside : last ∈ table.flatten := by
        rw [before]
        exact List.mem_append_right _ List.mem_cons_self
      have walked := ih inside (entry :: right) before
      exact .next walked (ends_nodeNext rep shape before rfl)

/-! ## The loops -/

/-- The rule for a walk over a map that stays as it is.  `inv rest b h` holds
when the entries `rest` are still to come. -/
theorem ends_forEach {β γ : Type} {body : Addr -> β -> Run (HMapMem K V) (Run.Round β γ)}
    {done : β -> γ} {post : γ -> HMapMem K V -> Prop} (shape : Shape self table)
    (inv : List (HMapEntry K V) -> β -> HMapMem K V -> Prop)
    (rep : forall rest b h, inv rest b h -> Rep h.blocks self table)
    (step : forall entry rest b h, (exists before, table.flatten = before ++ entry :: rest) ->
      inv (entry :: rest) b h -> Ends (body entry.addr b) h (fun round later =>
        match round with
        | .again next => inv rest next later
        | .leave result => post result later))
    (finish : forall b h, inv [] b h -> post (done b) h) {b : β}
    (holds : inv table.flatten b heap) :
    Ends (forEach self body done b) heap post := by
  simp only [forEach, ends_bind]
  refine ends_firstNode (rep _ _ _ holds) shape ?_
  refine ends_loop (fun n vars h => exists before rest, rest.length = n ∧
    table.flatten = before ++ rest ∧ vars.1 = (addrs rest).head? ∧ inv rest vars.2 h) ?_
    (n := table.flatten.length) ⟨[], _, rfl, rfl, rfl, holds⟩ (by rw [shape.len]; omega)
  rintro n ⟨ptr, b⟩ h ⟨before, rest, count, split, rfl, holds⟩
  cases rest with
  | nil => exact (ends_pure _ _ _).mpr (finish b h holds)
  | cons entry rest =>
      simp only [addrs_cons, List.head?_cons, ends_bind]
      refine (step entry rest b h ⟨before, split⟩ holds).mono ?_
      intro round later after
      cases round with
      | leave result => exact (ends_pure _ _ _).mpr after
      | again next =>
          simp only [ends_bind]
          refine ends_nodeNext (rep _ _ _ after) shape split ?_
          simp only [ends_pure]
          exact ⟨rest.length, by rw [← count]; exact Nat.lt_succ_self _, before ++ [entry], rest, rfl,
            by rw [split, List.append_assoc, List.singleton_append], rfl, after⟩

/-- The rule for a walk whose body may drop the entry it is on.  `left` are the
entries passed that are still in the map. -/
theorem ends_forEachSafe {β : Type}
    {body : Addr -> HMap K -> β -> Run (HMapMem K V) (HMap K × β)}
    {post : HMap K × β -> HMapMem K V -> Prop}
    (inv : List (HMapEntry K V) -> List (HMapEntry K V) -> HMap K -> β -> HMapMem K V -> Prop)
    (held : forall left rest map b h, inv left rest map b h -> exists now : HMapTable K V,
      Rep h.blocks map now ∧ Shape map now ∧ now.flatten = left ++ rest)
    (step : forall left entry rest map b h, inv left (entry :: rest) map b h ->
      Ends (body entry.addr map b) h (fun result later =>
        exists left, inv left rest result.1 result.2 later))
    (finish : forall left map b h, inv left [] map b h -> post (map, b) h) {b : β}
    {entries : List (HMapEntry K V)} (holds : inv [] entries self b heap) :
    Ends (forEachSafe self body b) heap post := by
  rcases held _ _ _ _ _ holds with ⟨now, rep, shape, whole⟩
  rw [List.nil_append] at whole
  simp only [forEachSafe, ends_bind]
  refine ends_firstNode rep shape ?_
  refine ends_loop (fun n vars h => exists left rest, rest.length = n ∧
    vars.1 = (addrs rest).head? ∧ inv left rest vars.2.1 vars.2.2 h) ?_
    (n := entries.length) ⟨[], entries, rfl, by rw [whole], holds⟩
    (by rw [shape.len, whole]; omega)
  rintro n ⟨ptr, map, b⟩ h ⟨left, rest, count, rfl, holds⟩
  cases rest with
  | nil => exact (ends_pure _ _ _).mpr (finish left map b h holds)
  | cons entry rest =>
      rcases held _ _ _ _ _ holds with ⟨now, rep, shape, whole⟩
      simp only [addrs_cons, List.head?_cons, ends_bind]
      refine ends_nodeNext rep shape whole ?_
      refine (step left entry rest map b h holds).mono ?_
      rintro ⟨next, b⟩ later ⟨left, after⟩
      simp only [ends_pure]
      exact ⟨rest.length, by rw [← count]; exact Nat.lt_succ_self _, left, rest, rfl, rfl, after⟩

end HMap
end TerseDsa
