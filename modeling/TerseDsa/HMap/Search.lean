import TerseDsa.HMap.Links

namespace TerseDsa

open Foundation Run

/-!
# Searching and walking

The two searches of `ds/hmap`, one over nodes and one over links, both find
the first entry of the key's bucket whose cached hash and key match.  A walk
goes through the entries in the order of the table.  None of them changes the
heap.
-/

namespace HMap

variable {K V C : Type} {heap : HMapMem K V} {self : HMap K} {table : HMapTable K V}
  {entry : HMapEntry K V} {idx : Nat} {chain : List (HMapEntry K V)} {key : K} {hash : Hash}

/-- Whether the entry is the one for the key: what `holds_key` asks of its node. -/
def isEntry (self : HMap K) (key : K) (hash : Hash) (entry : HMapEntry K V) : Bool :=
  entry.hash == hash && self.eq entry.key key

theorem holdsKey_nodeOf (next : Option Addr) :
    holdsKey self (nodeOf entry next) key hash = isEntry self key hash entry := rfl

/-- The chain a hash leads to; a map without buckets has only empty ones. -/
def chainOf (table : HMapTable K V) (hash : Hash) : List (HMapEntry K V) :=
  (table[bucketIdx hash table.length]?).getD []

/-- The entry a search for the key stops at. -/
def lookup (self : HMap K) (table : HMapTable K V) (key : K) (hash : Hash) :
    Option (HMapEntry K V) :=
  (chainOf table hash).find? (isEntry self key hash)

/-! ## Buckets -/

/-- The shift leaves as many bits as the count has. -/
theorem bucketIdx_lt {k : Nat} (positive : 0 < k) (small : k < 64) :
    bucketIdx hash (2 ^ k) < 2 ^ k := by
  rw [bucketIdx, bitCtz_two_pow small, BitVec.toNat_ushiftRight, Nat.shiftRight_eq_div_pow]
  apply Nat.div_lt_of_lt_mul
  rw [← Nat.pow_add, show 64 - k + k = 64 by omega]
  exact (hash * fibMultiplier).isLt

theorem Shape.bucketIdx_lt (shape : Shape self table) (nonempty : table ≠ []) (hash : Hash) :
    bucketIdx hash table.length < table.length := by
  rcases shape.power with empty | ⟨k, three, small, same⟩
  · exact absurd (List.eq_nil_of_length_eq_zero empty) nonempty
  · rw [same]
    exact HMap.bucketIdx_lt (by omega) (by omega)

theorem Shape.chainOf_eq (shape : Shape self table) (nonempty : table ≠ []) (hash : Hash) :
    table[bucketIdx hash table.length]? = some (chainOf table hash) := by
  have inside := shape.bucketIdx_lt nonempty hash
  rw [chainOf, List.getElem?_eq_getElem inside, Option.getD_some]

theorem chainOf_sub {hash : Hash} (member : entry ∈ chainOf table hash) :
    entry ∈ table.flatten := by
  unfold chainOf at member
  cases found : table[bucketIdx hash table.length]? with
  | none =>
      rw [found] at member
      exact absurd member List.not_mem_nil
  | some chain =>
      rw [found] at member
      exact mem_flatten_of_bucket found member

/-- The chain of an entry's own hash has the entry. -/
theorem Shape.mem_chainOf (shape : Shape self table) (member : entry ∈ table.flatten) :
    entry ∈ chainOf table entry.hash := by
  rcases mem_flatten_iff.mp member with ⟨idx, chain, atTable, inside⟩
  rw [chainOf, shape.placed idx chain atTable entry inside, atTable]
  exact inside

theorem ends_bucketIn {count : Nat} (power : exists k, 3 ≤ k ∧ k < 61 ∧ count = 2 ^ k)
    {post : Nat -> HMapMem K V -> Prop} :
    Ends (bucketIn hash count) heap post <-> post (bucketIdx hash count) heap := by
  rcases power with ⟨k, three, _, same⟩
  have above : 1 < count := by
    rw [same]
    exact Nat.one_lt_two_pow (by omega)
  have pow2 : isPow2 count = true := by rw [same, isPow2_two_pow]
  simp only [bucketIn, ends_bind, ends_require, above, and_true, pow2, true_and,
    ends_pure]

theorem ends_bucketOf (shape : Shape self table) (nonempty : table ≠ [])
    {post : Nat -> HMapMem K V -> Prop} :
    Ends (bucketOf self hash) heap post <-> post (bucketIdx hash table.length) heap := by
  have positive : 0 < self.bucketCount := by
    rw [shape.count]
    exact List.length_pos_iff.mpr nonempty
  have power : exists k, 3 ≤ k ∧ k < 61 ∧ self.bucketCount = 2 ^ k := by
    rw [shape.count]
    rcases shape.power with empty | power
    · exact absurd (List.eq_nil_of_length_eq_zero empty) nonempty
    · exact power
  simp only [bucketOf, ends_bind, ends_require, positive, true_and, ends_bucketIn power]
  rw [shape.count]

theorem Shape.chain_le (shape : Shape self table) (atTable : table[idx]? = some chain) :
    chain.length ≤ self.len := by
  rw [shape.len, flatten_split atTable, List.length_append, List.length_append]
  omega

/-- Inside a chain the link of an entry leads to the one that follows. -/
theorem Rep.next_eq {blocks : Blocks AlTag (HMapCell K V)} (rep : Rep blocks self table)
    {passed rest : List (HMapEntry K V)} (atTable : table[idx]? = some (passed ++ entry :: rest)) :
    nextOf blocks entry.addr = (addrs rest).head? := by
  rcases rep.bucket atTable with ⟨_, _, _, _, _, _, _, walk⟩
  rw [addrs_append, addrs_cons] at walk
  rcases Seg.append_iff.mp walk with ⟨_, _, second⟩
  have start := second.2.start_eq
  rwa [Option.or_none] at start

/-! ## The search over nodes -/

/-- The walk of `find_node` down one chain. -/
theorem ends_findNode_walk (rep : Rep heap.blocks self table)
    (atTable : table[idx]? = some chain) {bound : Nat} (enough : chain.length < bound)
    {post : Option Addr -> HMapMem K V -> Prop}
    (holds : post ((chain.find? (isEntry self key hash)).map HMapEntry.addr) heap) :
    Ends (loop (fun ptr => do
      match ptr with
      | none => return .leave none
      | some addr =>
          let node ← readNode addr
          if holdsKey self node key hash then
            return .leave (some addr)
          return .again node.next) bound (addrs chain).head?) heap post := by
  refine ends_loop (fun n ptr h => h = heap ∧ exists passed rest, rest.length = n ∧
    chain = passed ++ rest ∧ ptr = (addrs rest).head? ∧
    forall entry, entry ∈ passed -> isEntry self key hash entry = false) ?_
    (n := chain.length) ⟨rfl, [], chain, rfl, rfl, rfl, by simp⟩ enough
  rintro n ptr h ⟨rfl, passed, rest, count, split, rfl, missed⟩
  subst chain
  rw [List.find?_append, List.find?_eq_none.mpr (by
    intro entry member; simp [missed entry member]), Option.none_or] at holds
  cases rest with
  | nil => exact (ends_pure _ _ _).mpr holds
  | cons entry rest =>
      have member := mem_flatten_of_bucket atTable
        (List.mem_append_right passed (List.mem_cons_self (a := entry) (l := rest)))
      simp only [addrs_cons, List.head?_cons, ends_bind,
        ends_readNode (rep.holds entry member), holdsKey_nodeOf]
      by_cases found : isEntry self key hash entry = true
      · rw [List.find?_cons_of_pos found] at holds
        simp only [found, if_true, ends_pure]
        exact holds
      · have missing : isEntry self key hash entry = false := Bool.eq_false_iff.mpr found
        simp only [missing, Bool.false_eq_true, if_false, ends_pure, true_and]
        refine ⟨rest.length, by rw [← count]; exact Nat.lt_succ_self _, passed ++ [entry],
          rest, rfl, by simp, rep.next_eq atTable, ?_⟩
        intro other inside
        rcases List.mem_append.mp inside with before | last
        · exact missed other before
        · rw [List.mem_singleton.mp last]
          exact missing

theorem ends_findNode (rep : Rep heap.blocks self table) (shape : Shape self table)
    {post : Option Addr -> HMapMem K V -> Prop}
    (holds : post ((lookup self table key hash).map HMapEntry.addr) heap) :
    Ends (findNode self key hash) heap post := by
  unfold findNode
  by_cases empty : table = []
  · subst empty
    rw [if_pos (by rw [shape.count]; rfl), ends_pure]
    simpa [lookup, chainOf] using holds
  · have counted : self.bucketCount ≠ 0 := by
      rw [shape.count]
      exact fun zero => empty (List.eq_nil_of_length_eq_zero zero)
    have atTable := shape.chainOf_eq empty hash
    rcases rep.bucket atTable with ⟨array, slots, head, buckets, at_array, _, atSlot, walk⟩
    have start := walk.start_eq
    rw [Option.or_none] at start
    subst start
    simp only [if_neg counted, ends_bind, ends_bucketOf shape empty, buckets,
      ends_readSlot at_array atSlot]
    exact ends_findNode_walk rep atTable (Nat.lt_succ_of_le (shape.chain_le atTable)) holds

/-! ## The search over links -/

/-- `find_link` stops behind the entries that do not match: before the one that
does, or at the end of the chain. -/
theorem ends_findLink (rep : Rep heap.blocks self table) (shape : Shape self table)
    (nonempty : table ≠ []) {post : HMapLink -> HMapMem K V -> Prop}
    (holds : forall passed rest, chainOf table hash = passed ++ rest ->
      (forall entry, entry ∈ passed -> isEntry self key hash entry = false) ->
      (forall entry, entry ∈ rest.head? -> isEntry self key hash entry = true) ->
      post (linkAt (bucketIdx hash table.length) passed) heap) :
    Ends (findLink self key hash) heap post := by
  have atTable := shape.chainOf_eq nonempty hash
  simp only [findLink, ends_bind, ends_bucketOf shape nonempty]
  refine ends_loop (fun n link h => h = heap ∧ exists passed rest, rest.length = n ∧
    chainOf table hash = passed ++ rest ∧ link = linkAt (bucketIdx hash table.length) passed ∧
    forall entry, entry ∈ passed -> isEntry self key hash entry = false) ?_
    (n := (chainOf table hash).length) ⟨rfl, [], _, rfl, rfl, rfl, by simp⟩
    (Nat.lt_succ_of_le (shape.chain_le atTable))
  rintro n link h ⟨rfl, passed, rest, count, split, rfl, missed⟩
  rw [split] at atTable
  simp only [ends_bind, ends_readLink rep atTable]
  cases rest with
  | nil =>
      simp only [addrs_nil, List.head?_nil, ends_pure]
      exact holds passed [] split missed (by simp)
  | cons entry rest =>
      have member := mem_flatten_of_bucket atTable
        (List.mem_append_right passed (List.mem_cons_self (a := entry) (l := rest)))
      simp only [addrs_cons, List.head?_cons, ends_bind,
        ends_readNode (rep.holds entry member), holdsKey_nodeOf]
      by_cases found : isEntry self key hash entry = true
      · simp only [found, if_true, ends_pure]
        exact holds passed (entry :: rest) split missed
          (by intro other same; cases same; exact found)
      · have missing : isEntry self key hash entry = false := Bool.eq_false_iff.mpr found
        simp only [missing, Bool.false_eq_true, if_false, ends_pure, true_and]
        refine ⟨rest.length, by rw [← count]; exact Nat.lt_succ_self _, passed ++ [entry],
          rest, rfl, by simp [split], (linkAt_snoc passed entry).symm, ?_⟩
        intro other inside
        rcases List.mem_append.mp inside with before | last
        · exact missed other before
        · rw [List.mem_singleton.mp last]
          exact missing

/-! ## Walks -/

/-- `first_from` finds the first entry of the buckets from `idx` on. -/
theorem ends_firstFrom (rep : Rep heap.blocks self table) (shape : Shape self table)
    {post : Option Addr -> HMapMem K V -> Prop}
    (holds : post (addrs (table.drop idx).flatten).head? heap) :
    Ends (firstFrom self idx) heap post := by
  unfold firstFrom
  refine ends_loop (fun n i h => h = heap ∧ n = table.length - i ∧
    (addrs (table.drop i).flatten).head? = (addrs (table.drop idx).flatten).head?) ?_
    (n := table.length - idx) ⟨rfl, rfl, rfl⟩ (by rw [shape.count]; omega)
  rintro n i h ⟨rfl, rfl, same⟩
  by_cases inside : i < table.length
  · have atTable := List.getElem?_eq_getElem inside
    rcases rep.bucket atTable with ⟨array, slots, head, buckets, at_array, _, atSlot, walk⟩
    have start := walk.start_eq
    rw [Option.or_none] at start
    subst start
    simp only [if_pos (shape.count ▸ inside), ends_bind, buckets,
      ends_readSlot at_array atSlot]
    rw [List.drop_eq_getElem_cons inside, List.flatten_cons, addrs_append,
      List.head?_append] at same
    cases front : (addrs table[i]).head? with
    | none =>
        rw [front, Option.none_or] at same
        simp only [ends_pure, true_and]
        exact ⟨_, by omega, rfl, same⟩
    | some addr =>
        rw [front, Option.some_or] at same
        simp only [ends_pure]
        rw [same]
        exact holds
  · rw [if_neg (shape.count ▸ inside), ends_pure]
    rw [List.drop_eq_nil_of_le (by omega), List.flatten_nil] at same
    simp only [addrs_nil, List.head?_nil] at same
    rw [same]
    exact holds

/-- `next_node` steps to the entry that follows in the order of the table. -/
theorem ends_nextNode (rep : Rep heap.blocks self table) (shape : Shape self table)
    {before after : List (HMapEntry K V)} (split : table.flatten = before ++ entry :: after)
    {post : Option Addr -> HMapMem K V -> Prop} (holds : post (addrs after).head? heap) :
    Ends (nextNode self entry.addr) heap post := by
  have member : entry ∈ table.flatten := by
    rw [split]
    exact List.mem_append_right _ List.mem_cons_self
  rcases mem_flatten_iff.mp member with ⟨at_, chain, atTable, inside⟩
  rcases List.append_of_mem inside with ⟨passed, rest, same⟩
  subst chain
  have nonempty : table ≠ [] := by
    rintro rfl
    cases atTable
  have follows : after = rest ++ (table.drop (at_ + 1)).flatten := by
    have whole := flatten_split atTable
    rw [split, List.append_assoc, List.append_assoc, List.cons_append, ← List.append_assoc] at whole
    have nodup : table.flatten.Nodup := List.Nodup.of_map _ rep.distinct
    rw [split] at nodup
    have parts := List.nodup_append.mp nodup
    have notBefore : entry ∉ before := fun again =>
      parts.2.2 _ again _ List.mem_cons_self rfl
    have notAfter : entry ∉ after := (List.nodup_cons.mp parts.2.1).1
    exact ((List.append_cons_inj_of_notMem notBefore notAfter).mp whole).2.2
  simp only [nextNode, ends_bind, ends_readNode (rep.holds entry member), nodeOf,
    rep.next_eq atTable]
  cases rest with
  | nil =>
      rw [List.nil_append] at follows
      simp only [addrs_nil, List.head?_nil, ends_bind, ends_bucketOf shape nonempty]
      rw [shape.placed at_ _ atTable entry inside]
      exact ends_firstFrom rep shape (follows ▸ holds)
  | cons next rest =>
      rw [follows] at holds
      simpa only [addrs_cons, List.head?_cons, ends_pure, List.cons_append] using holds

end HMap
end TerseDsa
