import TerseDsa.HMap.Removal

namespace TerseDsa

open Foundation Run

/-!
# Giving everything back

`free_nodes` walks chain after chain and frees each node once its link has
been read.  While it runs the table is not held any more: what is left of it
is the blocks that have not been freed yet.
-/

namespace HMap

variable {K V C : Type} {heap : HMapMem K V} {self after : HMap K}
  {table changed : HMapTable K V} {entry : HMapEntry K V} {idx : Nat}
  {chain : List (HMapEntry K V)}

/-- The blocks at the addresses `gone` were freed, and nothing else changed. -/
structure Freed (blocks later : Blocks AlTag (HMapCell K V)) (gone : List Addr) : Prop where
  freed : forall addr, addr ∈ gone -> later addr = none
  others : forall addr, addr ∉ gone -> later addr = blocks addr

theorem Freed.nil (blocks : Blocks AlTag (HMapCell K V)) : Freed blocks blocks [] :=
  ⟨fun _ inside => absurd inside List.not_mem_nil, fun _ _ => rfl⟩

theorem Freed.snoc {blocks later : Blocks AlTag (HMapCell K V)} {gone : List Addr} {addr : Addr}
    (freed : Freed blocks later gone) :
    Freed blocks (Function.update later addr none) (gone ++ [addr]) := by
  constructor
  · intro other inside
    by_cases same : other = addr
    · rw [same, Function.update_self]
    · rw [Function.update_of_ne same]
      rcases List.mem_append.mp inside with before | last
      · exact freed.freed other before
      · exact absurd (List.mem_singleton.mp last) same
  · intro other outside
    rw [List.mem_append, List.mem_singleton, not_or] at outside
    rw [Function.update_of_ne outside.2]
    exact freed.others other outside.1

/-- The walk of `free_nodes` down one chain. -/
theorem ends_freeNodes_chain {origin : Blocks AlTag (HMapCell K V)} (rep : Rep origin self table)
    (shape : Shape self table) (atTable : table[idx]? = some chain) {gone : List Addr}
    (separate : (gone ++ addrs chain).Nodup) (freed : Freed origin heap.blocks gone) :
    Ends (loop (fun ptr => do
      match ptr with
      | none => return .leave ()
      | some addr =>
          let node ← readNode (V := V) (K := K) addr
          deallocNode self addr
          return .again node.next) (self.len + 1) (addrs chain).head?) heap
      (fun _ later => Freed origin later.blocks (gone ++ addrs chain)) := by
  refine ends_loop (fun n ptr h => exists passed rest, rest.length = n ∧
    chain = passed ++ rest ∧ ptr = (addrs rest).head? ∧
    Freed origin h.blocks (gone ++ addrs passed)) ?_ (n := chain.length)
    ⟨[], chain, rfl, rfl, rfl, by simpa using freed⟩ (Nat.lt_succ_of_le (shape.chain_le atTable))
  rintro n ptr h ⟨passed, rest, count, split, rfl, freed⟩
  subst chain
  cases rest with
  | nil => simpa using freed
  | cons entry rest =>
      have member := mem_flatten_of_bucket atTable
        (List.mem_append_right passed (List.mem_cons_self (a := entry) (l := rest)))
      have notGone : entry.addr ∉ gone ++ addrs passed := by
        rw [addrs_append, ← List.append_assoc, addrs_cons] at separate
        exact fun again => (List.nodup_append.mp separate).2.2 _ again _ List.mem_cons_self rfl
      have same := freed.others _ notGone
      have here := (rep.holds entry member).congr same
      have live : h.blocks entry.addr = some ⟨(self.al, self.node),
          .node (nodeOf entry (nextOf h.blocks entry.addr))⟩ := here
      simp only [addrs_cons, List.head?_cons, ends_bind, ends_readNode here, nodeOf,
        deallocNode, ends_dealloc_some shape.real shape.nodeSized live, ends_pure,
        nextOf_congr same, rep.next_eq atTable]
      refine ⟨rest.length, by rw [← count]; exact Nat.lt_succ_self _, passed ++ [entry], rest, rfl,
        by simp, rfl, ?_⟩
      rw [addrs_append, addrs_cons, addrs_nil, ← List.append_assoc]
      exact freed.snoc

/-- `free_nodes` frees every node and nothing else. -/
theorem ends_freeNodes (rep : Rep heap.blocks self table) (shape : Shape self table)
    {post : Unit -> HMapMem K V -> Prop}
    (holds : forall later : HMapMem K V,
      Freed heap.blocks later.blocks (addrs table.flatten) -> post () later) :
    Ends (freeNodes (V := V) self) heap post := by
  unfold freeNodes
  refine ends_countUp (fun idx _ h => Freed heap.blocks h.blocks (addrs (table.take idx).flatten))
    (show 0 + self.bucketCount = table.length by rw [shape.count]; omega) ?_ ?_
    (by simpa using Freed.nil heap.blocks)
  · rintro idx _ h _ inside freed
    have atTable := List.getElem?_eq_getElem inside
    rcases rep.bucket atTable with ⟨array, slots, head, buckets, at_array, _, atSlot, walk⟩
    have start := walk.start_eq
    rw [Option.or_none] at start
    subst start
    have notGone : array ∉ addrs (table.take idx).flatten := by
      intro again
      rcases mem_addrs.mp again with ⟨entry, member, rfl⟩
      have whole : entry ∈ table.flatten := by
        rw [flatten_split atTable]
        exact List.mem_append_left _ (List.mem_append_left _ member)
      exact (rep.holds entry whole).ne_array at_array rfl
    have at_array' : ArrayAt h.blocks self.al array slots := by
      rcases at_array with ⟨layout, fits, here⟩
      exact ⟨layout, fits, by rw [freed.others array notGone]; exact here⟩
    have upTo : (table.take (idx + 1)).flatten = (table.take idx).flatten ++ table[idx] := by
      rw [List.take_succ_eq_append_getElem inside, List.flatten_append, List.flatten_singleton]
    simp only [ends_bind, buckets, ends_readSlot at_array' atSlot]
    rw [upTo, addrs_append]
    refine ends_freeNodes_chain rep shape atTable ?_ freed
    have distinct := rep.distinct
    rw [flatten_split atTable, addrs_append, addrs_append] at distinct
    exact (List.nodup_append.mp distinct).1
  · rintro _ h freed
    rw [List.take_length] at freed
    exact holds h freed

/-! ## The whole map -/

theorem Shape.forget (shape : Shape self table) :
    Shape (forgetBuckets self) ([] : HMapTable K V) :=
  ⟨shape.real, shape.keyType, shape.valType, shape.layout, rfl, Or.inl rfl,
    (fun _ _ impossible => by cases impossible), rfl, Nat.le_refl _⟩

theorem Rep.empty {blocks : Blocks AlTag (HMapCell K V)} (none_ : self.buckets = none) :
    Rep blocks self ([] : HMapTable K V) :=
  ⟨⟨fun _ => rfl, fun _ => none_⟩, (fun array some_ => by rw [none_] at some_; cases some_),
    fun _ member => absurd member List.not_mem_nil, List.nodup_nil⟩

/-- After `release_buckets` nothing of the map is live. -/
theorem ends_releaseBuckets (rep : Rep heap.blocks self table) (shape : Shape self table)
    {post : HMap K -> HMapMem K V -> Prop}
    (holds : forall later : HMapMem K V,
      Steps heap.blocks later.blocks self (forgetBuckets self) table [] ->
      post (forgetBuckets self) later) :
    Ends (releaseBuckets (V := V) self) heap post := by
  simp only [releaseBuckets, ends_bind]
  refine ends_freeNodes rep shape ?_
  intro middle freed
  have arrayNotNode : forall array, self.buckets = some array ->
      array ∉ addrs table.flatten := by
    intro array buckets again
    rcases mem_addrs.mp again with ⟨entry, member, rfl⟩
    rcases rep.array _ buckets with ⟨slots, at_array, _⟩
    exact (rep.holds entry member).ne_array at_array rfl
  refine ends_deallocArray rep shape
    (fun array buckets => freed.others array (arrayNotNode array buckets)) ?_
  intro last gone same
  simp only [ends_pure]
  refine holds last ⟨Rep.empty rfl, shape.forget, ?_, rfl⟩
  constructor
  · intro addr notBefore _
    rw [mem_owned, not_or] at notBefore
    rw [same addr notBefore.1, freed.others addr notBefore.2]
  · intro addr inside
    exact absurd inside List.not_mem_nil
  · intro addr inBefore _
    rcases mem_owned.mp inBefore with atArray | inside
    · exact gone addr atArray
    · rw [same addr (fun equal => arrayNotNode addr equal inside)]
      exact freed.freed addr inside

/-- `deinit` gives back all that the map owns. -/
theorem ends_deinit (rep : Rep heap.blocks self table) (shape : Shape self table)
    {post : HMap K -> HMapMem K V -> Prop}
    (holds : forall later : HMapMem K V,
      Evolves heap.blocks later.blocks (owned self table) [] -> post inert later) :
    Ends (deinit (V := V) self) heap post := by
  have real : self.al ≠ none := fun none_ => by
    have some_ := shape.real
    rw [none_] at some_
    cases some_
  unfold deinit
  rw [if_neg real]
  simp only [ends_bind, ends_assertHMap (shape.asserts rep)]
  refine ends_releaseBuckets rep shape ?_
  intro later steps
  exact (ends_pure _ _ _).mpr (holds later steps.evolves)

theorem ends_deinit_inert {post : HMap K -> HMapMem K V -> Prop} :
    Ends (deinit (V := V) (inert (K := K))) heap post <-> post inert heap := by
  unfold deinit
  rw [if_pos (show (inert (K := K)).al = none from rfl), ends_bind, ends_require,
    ends_pure]
  exact ⟨And.right, fun holds => ⟨rfl, holds⟩⟩

/-- Writing null to the slots, one after the other. -/
theorem ends_clearSlots {al : Al} {array : Addr} {slots : List (Option Addr)}
    (buckets : self.buckets = some array) (counted : self.bucketCount = slots.length)
    (at_array : ArrayAt heap.blocks al array slots) {post : Unit -> HMapMem K V -> Prop}
    (holds : forall later : HMapMem K V,
      ArrayAt later.blocks al array (List.replicate slots.length none) ->
      (forall addr, addr ≠ array -> later.blocks addr = heap.blocks addr) -> post () later) :
    Ends (countUp (fun idx _ => writeSlot (K := K) (V := V) self.buckets idx none)
      self.bucketCount 0 ()) heap post := by
  refine ends_countUp (fun idx _ h =>
    ArrayAt h.blocks al array (List.replicate idx none ++ slots.drop idx) ∧
    forall addr, addr ≠ array -> h.blocks addr = heap.blocks addr)
    (show 0 + self.bucketCount = slots.length by omega) ?_ ?_
    ⟨by simpa using at_array, fun _ _ => rfl⟩
  · rintro idx _ h _ inside ⟨here, others⟩
    rw [buckets]
    refine ends_writeSlot here (by simp; omega) ?_
    intro layout fits
    refine ⟨?_, ?_⟩
    · have set_ : (List.replicate idx none ++ slots.drop idx).set idx none =
          List.replicate (idx + 1) none ++ slots.drop (idx + 1) := by
        rw [List.set_append_right _ _ (by simp), List.length_replicate, Nat.sub_self,
          List.drop_eq_getElem_cons inside, List.set_cons_zero, List.replicate_succ',
          List.append_assoc, List.singleton_append]
      rw [← set_]
      exact arrayAt_put fits
    · intro addr different
      rw [Heap.put_blocks, Function.update_of_ne different]
      exact others addr different
  · rintro _ h ⟨here, others⟩
    rw [List.drop_length, List.append_nil] at here
    exact holds h here others

/-- `clear` keeps the bucket array and empties every bucket. -/
theorem ends_clear (rep : Rep heap.blocks self table) (shape : Shape self table)
    {post : HMap K -> HMapMem K V -> Prop}
    (holds : forall later : HMapMem K V,
      Steps heap.blocks later.blocks self { self with len := 0 } table
        (List.replicate table.length []) ->
      post { self with len := 0 } later) :
    Ends (clear (V := V) self) heap post := by
  have shapeNew : Shape { self with len := 0 }
      (List.replicate table.length ([] : List (HMapEntry K V))) := by
    refine ⟨shape.real, shape.keyType, shape.valType, shape.layout, ?_, ?_, ?_, ?_, ?_⟩
    · rw [List.length_replicate]
      exact shape.count
    · rw [List.length_replicate]
      exact shape.power
    · intro idx chain atTable entry member
      rw [List.eq_of_mem_replicate (List.mem_of_getElem? atTable)] at member
      exact absurd member List.not_mem_nil
    · rw [List.flatten_replicate_nil]
      rfl
    · rw [List.flatten_replicate_nil]
      exact Nat.zero_le _
  simp only [clear, ends_bind, ends_assertHMap (shape.asserts rep)]
  refine ends_freeNodes rep shape ?_
  intro middle freed
  rcases Option.eq_none_or_eq_some self.buckets with buckets | ⟨array, buckets⟩
  · have empty := rep.none_iff.mp buckets
    subst table
    have counted : self.bucketCount = 0 := shape.count
    have repNew : Rep middle.blocks { self with len := 0 } ([] : HMapTable K V) :=
      Rep.empty buckets
    have skip : forall post : Unit -> HMapMem K V -> Prop, post () middle ->
        Ends (countUp (fun idx _ => writeSlot (K := K) (V := V) self.buckets idx none)
          self.bucketCount 0 ()) middle post := by
      intro post holds
      rw [counted]
      exact (ends_pure _ _ _).mpr holds
    refine skip _ ?_
    simp only [ends_assertHMap (shapeNew.asserts repNew), ends_pure]
    refine holds middle ⟨repNew, shapeNew, ?_, rfl⟩
    exact Evolves.of_within fun addr _ => freed.others addr List.not_mem_nil
  · rcases rep.array array buckets with ⟨slots, at_array, chains⟩
    have notGone : array ∉ addrs table.flatten := by
      intro again
      rcases mem_addrs.mp again with ⟨entry, member, rfl⟩
      exact (rep.holds entry member).ne_array at_array rfl
    have at_array' : ArrayAt middle.blocks self.al array slots := by
      rcases at_array with ⟨layout, fits, here⟩
      exact ⟨layout, fits, by rw [freed.others array notGone]; exact here⟩
    refine ends_clearSlots buckets (by rw [shape.count, chains.length]) at_array' ?_
    intro last cleared others
    have nonempty : table ≠ [] := fun empty => by
      rw [rep.none_iff.mpr empty] at buckets
      cases buckets
    have repNew : Rep last.blocks { self with len := 0 }
        (List.replicate table.length ([] : List (HMapEntry K V))) := by
      refine ⟨?_, ?_, ?_, ?_⟩
      · change self.buckets = none <-> _
        rw [rep.none_iff, List.replicate_eq_nil_iff, List.length_eq_zero_iff]
      · intro other same
        rw [show self.buckets = _ from same] at buckets
        cases buckets
        refine ⟨_, cleared, ?_⟩
        rw [chains.length]
        exact Chains.replicate table.length
      · rw [List.flatten_replicate_nil]
        exact fun _ member => absurd member List.not_mem_nil
      · rw [List.flatten_replicate_nil]
        exact List.nodup_nil
    simp only [ends_assertHMap (shapeNew.asserts repNew), ends_pure]
    refine holds last ⟨repNew, shapeNew, ?_, rfl⟩
    have ownedNew : owned { self with len := 0 }
        (List.replicate table.length ([] : List (HMapEntry K V))) = [array] := by
      unfold owned
      rw [List.flatten_replicate_nil, addrs_nil, List.append_nil]
      exact congrArg Option.toList buckets
    rw [ownedNew]
    constructor
    · intro addr notBefore _
      rw [mem_owned, not_or] at notBefore
      rw [others addr (fun equal => notBefore.1 (equal ▸ buckets)), freed.others addr notBefore.2]
    · intro addr inside notBefore
      rw [List.mem_singleton.mp inside] at notBefore
      exact absurd (mem_owned.mpr (Or.inl buckets)) notBefore
    · intro addr inBefore notAfter
      have different : addr ≠ array := fun equal => notAfter (List.mem_singleton.mpr equal)
      rcases mem_owned.mp inBefore with atArray | inside
      · rw [buckets] at atArray
        exact absurd (Option.some.inj atArray).symm different
      · rw [others addr different]
        exact freed.freed addr inside

/-- `shrink_to_fit` keeps the entries, in no more buckets than there were. -/
theorem ends_shrinkToFit (rep : Rep heap.blocks self table) (shape : Shape self table)
    {post : Status × HMap K -> HMapMem K V -> Prop}
    (holds : forall (st : Status) (after : HMap K) (changed : HMapTable K V)
      (later : HMapMem K V),
      Steps heap.blocks later.blocks self after table changed ->
      changed.flatten.Perm table.flatten -> (st ≠ .ok -> after = self ∧ later.blocks = heap.blocks) ->
      post (st, after) later) :
    Ends (shrinkToFit (V := V) self) heap post := by
  simp only [shrinkToFit, ends_bind, ends_assertHMap (shape.asserts rep)]
  by_cases none_ : self.len = 0
  · simp only [if_pos none_, ends_bind]
    refine ends_releaseBuckets rep shape ?_
    intro later steps
    simp only [ends_assertHMap steps.asserts, ends_pure]
    have empty : table.flatten = [] := by
      rw [← List.length_eq_zero_iff, ← shape.len]
      exact none_
    refine holds .ok (forgetBuckets self) [] later steps ?_ (fun impossible => absurd rfl impossible)
    rw [empty]
    exact List.Perm.refl _
  · simp only [if_neg none_]
    by_cases keeps : bucketsFor self.len = 0 ∨ bucketsFor self.len ≥ self.bucketCount
    · simp only [if_pos keeps, ends_pure]
      exact holds .ok self table heap (Steps.refl rep shape) (List.Perm.refl _)
        (fun impossible => absurd rfl impossible)
    · simp only [if_neg keeps, ends_bind]
      rw [not_or] at keeps
      rcases bucketsFor_cases self.len with overflow | ⟨k, three, power, fits, _⟩
      · exact absurd overflow keeps.1
      · have len := shape.len
        refine ends_rehash rep shape three power (by rw [power]; omega) ?_ ?_
        · intro later same
          simp only [ends_assertHMap (shape.asserts rep), ends_pure]
          exact holds .errNoMem self table later (by rw [same]; exact Steps.refl rep shape)
            (List.Perm.refl _) (fun _ => ⟨rfl, same⟩)
        · intro after changed later steps _ perm
          simp only [ends_assertHMap steps.asserts, ends_pure]
          exact holds .ok after changed later steps perm (fun impossible => absurd rfl impossible)

end HMap
end TerseDsa
