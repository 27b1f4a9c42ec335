import TerseDsa.HMap.Search

namespace TerseDsa

open Foundation Run
open Function (update update_self update_of_ne)

/-!
# Filing nodes, and growing the bucket array

`link_node` files one node in a bucket array.  `rehash` files every node in a
fresh one: while it runs, the nodes already filed belong to the new table and
the ones still to come to the old, whose links are as they were.  The new
table has the same entries in another order.

Every operation on a map is summed up by `HMap.Steps`: what the map and its
table have become, in a heap where nothing but the map's own blocks changed.
-/

namespace HMap

variable {K V C : Type} {heap : HMapMem K V} {self after : HMap K}
  {table changed : HMapTable K V} {entry : HMapEntry K V} {idx : Nat}
  {chain : List (HMapEntry K V)} {hash : Hash}

/-- From `self` over `table` to `after` over `changed`: the new table is held
and well formed, only the map's own blocks were touched, and the layouts, the
callbacks and the allocator are the map's own still. -/
structure Steps (blocks later : Blocks AlTag (HMapCell K V)) (map after : HMap K)
    (table changed : HMapTable K V) : Prop where
  rep : Rep later after changed
  shape : Shape after changed
  evolves : Evolves blocks later (owned map table) (owned after changed)
  kind : forgetBuckets after = forgetBuckets map

namespace Steps

variable {blocks later last : Blocks AlTag (HMapCell K V)}

theorem refl (rep : Rep blocks self table) (shape : Shape self table) :
    Steps blocks blocks self self table table :=
  ⟨rep, shape, Evolves.refl _ _, rfl⟩

theorem trans {final : HMap K} {latest : HMapTable K V}
    (first : Steps blocks later self after table changed)
    (second : Steps later last after final changed latest) :
    Steps blocks last self final table latest :=
  ⟨second.rep, second.shape, first.evolves.trans second.evolves, second.kind.trans first.kind⟩

theorem eq_eq (steps : Steps blocks later self after table changed) : after.eq = self.eq :=
  (congrArg HMap.eq steps.kind :)

theorem hasher_eq (steps : Steps blocks later self after table changed) :
    after.hasher = self.hasher :=
  (congrArg HMap.hasher steps.kind :)

theorem val_eq (steps : Steps blocks later self after table changed) : after.val = self.val :=
  (congrArg HMap.val steps.kind :)

theorem asserts (steps : Steps blocks later self after table changed) : after.Asserts :=
  steps.shape.asserts steps.rep

end Steps

theorem ends_assertHMap (holds : self.Asserts) {post : Unit -> HMapMem K V -> Prop} :
    Ends (assertHMap self) heap post <-> post () heap := by
  simp only [assertHMap, ends_require, holds, true_and]

/-! ## Framing -/

theorem Rep.live {blocks : Blocks AlTag (HMapCell K V)} (rep : Rep blocks self table) {addr : Addr}
    (mine : addr ∈ owned self table) : blocks addr ≠ none := by
  rcases mem_owned.mp mine with atArray | inside
  · rcases rep.array addr atArray with ⟨slots, ⟨layout, _, here⟩, _⟩
    rw [here]
    exact Option.some_ne_none _
  · rcases mem_addrs.mp inside with ⟨entry, member, rfl⟩
    exact (rep.holds entry member).live

/-- A table is held by any heap that agrees on the blocks the map owns. -/
theorem Rep.congr {blocks other : Blocks AlTag (HMapCell K V)} (rep : Rep blocks self table)
    (agree : forall addr, addr ∈ owned self table -> other addr = blocks addr) :
    Rep other self table := by
  refine ⟨rep.none_iff, ?_, ?_, rep.distinct⟩
  · intro array buckets
    rcases rep.array array buckets with ⟨slots, ⟨layout, fits, here⟩, chains⟩
    refine ⟨slots, ⟨layout, fits, ?_⟩, chains.congr ?_⟩
    · rw [agree array (mem_owned.mpr (Or.inl buckets))]
      exact here
    · intro addr inside
      exact nextOf_congr (agree addr (mem_owned.mpr (Or.inr inside)))
  · intro entry member
    exact (rep.holds entry member).congr
      (agree entry.addr (mem_owned.mpr (Or.inr (addr_mem_addrs member))))

theorem Rep.of_grant {blocks : Blocks AlTag (HMapCell K V)} (rep : Rep blocks self table)
    {addr : Addr} (free : blocks addr = none) {block : Block AlTag (HMapCell K V)} :
    Rep (update blocks addr (some block)) self table :=
  rep.congr fun other mine => update_of_ne (by rintro rfl; exact rep.live mine free) _ _

theorem Holds.eq_of_addr {blocks : Blocks AlTag (HMapCell K V)} {tag tag' : AlTag}
    {other : HMapEntry K V} (first : Holds blocks tag entry) (second : Holds blocks tag' other)
    (same : other.addr = entry.addr) : other = entry := by
  unfold Holds at first second
  rw [same, first] at second
  injection Option.some.inj second with _ cells
  injection cells with nodes
  rcases entry with ⟨addr, hash, key, val⟩
  rcases other with ⟨addr', hash', key', val'⟩
  injection nodes with _ hashes keys vals
  cases same
  cases hashes
  cases keys
  cases vals
  rfl

/-! ## Filing a node -/

/-- The table with an entry at the head of its bucket. -/
def place (table : HMapTable K V) (entry : HMapEntry K V) : HMapTable K V :=
  table.set (bucketIdx entry.hash table.length) (entry :: chainOf table entry.hash)

@[simp] theorem place_length : (place table entry).length = table.length := List.length_set

/-- Every entry of the table is in the bucket of its hash. -/
def Placed (table : HMapTable K V) : Prop :=
  forall (idx : Nat) (chain : List (HMapEntry K V)), table[idx]? = some chain ->
    forall entry, entry ∈ chain -> bucketIdx entry.hash table.length = idx

/-- Whether a bucket count is one that a map can have. -/
def GoodCount (count : Nat) : Prop := exists k, 3 ≤ k ∧ k < 61 ∧ count = 2 ^ k

theorem GoodCount.bucketIdx_lt {count : Nat} (good : GoodCount count) :
    bucketIdx hash count < count := by
  rcases good with ⟨k, three, small, same⟩
  rw [same]
  exact HMap.bucketIdx_lt (by omega) (by omega)

theorem GoodCount.chainOf_eq (good : GoodCount table.length) (hash : Hash) :
    table[bucketIdx hash table.length]? = some (chainOf table hash) := by
  rw [chainOf, List.getElem?_eq_getElem good.bucketIdx_lt, Option.getD_some]

theorem place_perm (good : GoodCount table.length) (entry : HMapEntry K V) :
    (place table entry).flatten.Perm (entry :: table.flatten) := by
  rcases flatten_set_perm (good.chainOf_eq entry.hash) (entry :: chainOf table entry.hash) with ⟨rest, whole, more⟩
  exact more.trans (whole.symm.cons entry)

theorem Placed.place (placed : Placed table) (good : GoodCount table.length) :
    Placed (place table entry) := by
  intro idx chain atTable other member
  rw [place_length]
  rcases getElem?_set_cases atTable with ⟨rfl, rfl⟩ | ⟨_, same⟩
  · rcases List.mem_cons.mp member with equal | inside
    · rw [equal]
    · exact placed _ _ (good.chainOf_eq entry.hash) other inside
  · exact placed idx chain same other member

/-- What `link_node` did: the entry is filed, and nothing changed but its link
and the slots. -/
structure Filed (blocks later : Blocks AlTag (HMapCell K V)) (al : Al) (array : Addr)
    (table : HMapTable K V) (entry : HMapEntry K V) : Prop where
  slots : exists slots, ArrayAt later al array slots ∧
    Chains (nextOf later) slots (place table entry)
  holds : forall tag other, Holds blocks tag other -> Holds later tag other
  outside : forall addr, addr ≠ entry.addr -> addr ≠ array -> later addr = blocks addr

theorem ends_linkNode {tag : AlTag} {al : Al} {array : Addr} {slots : List (Option Addr)}
    (here : Holds heap.blocks tag entry) (at_array : ArrayAt heap.blocks al array slots)
    (chains : Chains (nextOf heap.blocks) slots table) (good : GoodCount table.length)
    (distinct : (addrs table.flatten).Nodup) (outside : entry.addr ∉ addrs table.flatten)
    {post : Unit -> HMapMem K V -> Prop}
    (holds : forall later : HMapMem K V,
      Filed heap.blocks later.blocks al array table entry -> post () later) :
    Ends (linkNode (some array) table.length entry.addr) heap post := by
  have atTable := good.chainOf_eq entry.hash
  have inside : bucketIdx entry.hash table.length < slots.length := by
    rw [chains.length]
    exact good.bucketIdx_lt
  have atSlot := List.getElem?_eq_getElem inside
  have walk := chains.chain _ _ _ atSlot atTable
  have separate := here.ne_array at_array
  simp only [linkNode, ends_bind, ends_readNode here, nodeOf, ends_bucketIn good,
    ends_readSlot at_array atSlot, ends_writeNode here]
  have links := nextOf_update_node heap.blocks tag entry.addr
    (nodeOf entry slots[bucketIdx entry.hash table.length])
  have stays : ArrayAt (heap.put entry.addr
      (some ⟨tag, .node (nodeOf entry slots[bucketIdx entry.hash table.length])⟩)).blocks al array
      slots :=
    at_array.update_of_ne fun equal => separate equal.symm
  refine ends_writeSlot stays inside ?_
  intro layout fits
  have linksAll := nextOf_put_slots stays layout
    (slots.set (bucketIdx entry.hash table.length) (some entry.addr))
  apply holds
  constructor
  · refine ⟨_, arrayAt_put fits, ?_⟩
    rw [Heap.put_blocks, Heap.put_blocks]
    refine (congrArg (fun next => Chains next _ _) (linksAll.trans links)).mpr ?_
    refine chains.replace distinct atTable ?_ ?_
    · intro addr member _
      refine update_of_ne ?_ _ _
      rintro rfl
      exact outside member
    · refine ⟨rfl, ?_⟩
      rw [update_self]
      refine walk.update_of_not_mem ?_
      intro again
      rcases mem_addrs.mp again with ⟨other, member, same⟩
      exact outside (same ▸ addr_mem_addrs (chainOf_sub member))
  · intro tag' other old
    by_cases same : other.addr = entry.addr
    · have equal := here.eq_of_addr old same
      subst equal
      have tags : tag' = tag := by
        have blocksEq := (show heap.blocks other.addr = _ from old).symm.trans here
        injection Option.some.inj blocksEq
      subst tags
      have written : Holds (heap.put other.addr (some ⟨tag', .node (nodeOf other
          slots[bucketIdx other.hash table.length])⟩)).blocks tag' other := Holds.update_self rfl
      exact written.update_of_ne separate
    · exact (old.update_of_ne same).update_of_ne (old.ne_array at_array)
  · intro addr notEntry notArray
    rw [Heap.put_blocks, update_of_ne notArray]
    exact update_of_ne notEntry _ _

/-! ## Filing many nodes -/

/-- In the midst of `rehash`: the entries `moved` are filed in the new table,
and all else is as it was. -/
structure Moving (blocks later : Blocks AlTag (HMapCell K V)) (al : Al) (array : Addr)
    (count : Nat) (moved : List (HMapEntry K V)) (table : HMapTable K V) : Prop where
  slots : exists slots, ArrayAt later al array slots ∧ Chains (nextOf later) slots table
  count : table.length = count
  perm : table.flatten.Perm moved
  placed : Placed table
  holds : forall tag other, Holds blocks tag other -> Holds later tag other
  outside : forall addr, addr ∉ addrs moved -> addr ≠ array -> later addr = blocks addr

theorem Moving.step {blocks later last : Blocks AlTag (HMapCell K V)} {al : Al} {array : Addr}
    {count : Nat} {moved : List (HMapEntry K V)} (good : GoodCount count)
    (moving : Moving blocks later al array count moved table)
    (filed : Filed later last al array table entry) :
    Moving blocks last al array count (moved ++ [entry]) (place table entry) := by
  have good' : GoodCount table.length := moving.count ▸ good
  refine ⟨filed.slots, place_length.trans moving.count, ?_, moving.placed.place good', ?_, ?_⟩
  · exact ((place_perm good' entry).trans (moving.perm.cons entry)).trans
      (List.perm_append_singleton entry moved).symm
  · intro tag other old
    exact filed.holds tag other (moving.holds tag other old)
  · intro addr notMoved notArray
    rw [addrs_append, addrs_cons, addrs_nil, List.mem_append, List.mem_singleton, not_or] at notMoved
    rw [filed.outside addr notMoved.2 notArray, moving.outside addr notMoved.1 notArray]

/-- The walk that files one old chain: the links it follows are still those of
the old table. -/
theorem ends_relinkChain {origin : Blocks AlTag (HMapCell K V)} {array : Addr} {count : Nat}
    (good : GoodCount count) (rep : Rep origin self table) (shape : Shape self table)
    (atTable : table[idx]? = some chain) (notArray : array ∉ owned self table)
    {moved : List (HMapEntry K V)}
    (separate : (addrs (moved ++ chain)).Nodup) {fresh : HMapTable K V}
    (moving : Moving origin heap.blocks self.al array count moved fresh)
    {post : Unit -> HMapMem K V -> Prop}
    (holds : forall (later : HMapMem K V) (filled : HMapTable K V),
      Moving origin later.blocks self.al array count (moved ++ chain) filled -> post () later) :
    Ends (relinkChain self (some array) count (addrs chain).head?) heap post := by
  unfold relinkChain
  refine ends_loop (fun n ptr h => exists passed rest filled, rest.length = n ∧
    chain = passed ++ rest ∧ ptr = (addrs rest).head? ∧
    Moving origin h.blocks self.al array count (moved ++ passed) filled) ?_
    (n := chain.length) ⟨[], chain, fresh, rfl, rfl, rfl, by rw [List.append_nil]; exact moving⟩
    (Nat.lt_succ_of_le (shape.chain_le atTable))
  rintro n ptr h ⟨passed, rest, filled, length, split, rfl, moving⟩
  subst chain
  cases rest with
  | nil =>
      rw [List.append_nil] at holds
      exact (ends_pure _ _ _).mpr (holds h filled moving)
  | cons entry rest =>
      have member := mem_flatten_of_bucket atTable
        (List.mem_append_right passed (List.mem_cons_self (a := entry) (l := rest)))
      have old := rep.holds entry member
      have now := moving.holds _ _ old
      rcases moving.slots with ⟨slots, at_array, chains⟩
      rw [← List.append_assoc, addrs_append, addrs_cons] at separate
      have parts := List.nodup_append.mp separate
      have notMoved : entry.addr ∉ addrs (moved ++ passed) := fun again =>
        parts.2.2 _ again _ List.mem_cons_self rfl
      have addrsPerm : (addrs filled.flatten).Perm (addrs (moved ++ passed)) := moving.perm.map _
      have entryNotArray : entry.addr ≠ array := by
        rintro rfl
        exact notArray (mem_owned.mpr (Or.inr (addr_mem_addrs member)))
      have link : nextOf h.blocks entry.addr = (addrs rest).head? := by
        rw [nextOf_congr (moving.outside _ notMoved entryNotArray)]
        exact rep.next_eq atTable
      simp only [addrs_cons, List.head?_cons, ends_bind, ends_readNode now, nodeOf]
      rw [← moving.count]
      refine ends_linkNode now at_array chains (moving.count ▸ good)
        (addrsPerm.nodup_iff.mpr parts.1) (fun inside => notMoved (addrsPerm.mem_iff.mp inside)) ?_
      intro later filed
      rw [moving.count]
      rw [link, ends_pure]
      refine ⟨rest.length, by rw [← length]; exact Nat.lt_succ_self _, passed ++ [entry], rest,
        place filled entry, rfl, by simp, rfl, ?_⟩
      rw [← List.append_assoc]
      exact moving.step good filed

/-! ## The bucket counts asked for -/

theorem bucketsFor_go {len : Nat} : forall {bound k : Nat}, 3 ≤ k -> k < 64 -> 67 ≤ bound + k ->
    (k = 3 ∨ 2 ^ (k - 1) < len) ->
    bucketsFor.go len bound (2 ^ k) = 0 ∨
      exists j, 3 ≤ j ∧ bucketsFor.go len bound (2 ^ k) = 2 ^ j ∧ len ≤ 2 ^ j ∧
        (j = 3 ∨ 2 ^ (j - 1) < len) := by
  intro bound
  induction bound with
  | zero => intro k _ small enough _; omega
  | succ bound ih =>
      intro k three small enough least
      rw [bucketsFor.go]
      by_cases more : 2 ^ k < len
      · rw [if_pos more]
        have double : 2 ^ k * growthFactor = 2 ^ (k + 1) := (Nat.pow_succ 2 k).symm
        unfold ckdMul
        rw [double]
        by_cases fits : 2 ^ (k + 1) < sizeRange
        · rw [if_pos fits]
          have small' : k + 1 < 64 := (Nat.pow_lt_pow_iff_right (by omega)).mp fits
          exact ih (by omega) small' (by omega) (Or.inr more)
        · rw [if_neg fits]
          exact Or.inl rfl
      · rw [if_neg more]
        exact Or.inr ⟨k, three, rfl, Nat.le_of_not_lt more, least⟩

/-- `buckets_for` gives the smallest power of two that holds `len` entries, not
below the base; 0 stands for overflow. -/
theorem bucketsFor_cases (len : Nat) :
    bucketsFor len = 0 ∨ exists k, 3 ≤ k ∧ bucketsFor len = 2 ^ k ∧ len ≤ 2 ^ k ∧
      (k = 3 ∨ 2 ^ (k - 1) < len) :=
  bucketsFor_go (k := 3) (by omega) (by omega) (by omega) (Or.inl rfl)

/-- A bucket array that fits in memory has a good count. -/
theorem goodCount_of_fits {count k : Nat} {layout : Layout} (three : 3 ≤ k) (same : count = 2 ^ k)
    (fits : Layout.ofPointer.ckdArray count = some layout) : GoodCount count := by
  refine ⟨k, three, ?_, same⟩
  unfold Layout.ckdArray ckdMul at fits
  split at fits
  · rename_i small
    rw [same, show Layout.ofPointer.size = 2 ^ 3 from rfl, ← Nat.pow_add] at small
    have exponent : 3 + k < 64 := (Nat.pow_lt_pow_iff_right (by omega)).mp small
    omega
  · cases fits

/-! ## Growing and shrinking -/

theorem Shape.placedAll (shape : Shape self table) : Placed table := shape.placed

/-- The array of a map is given back under the layout it was asked for. -/
theorem ends_deallocArray (rep : Rep heap.blocks self table) (shape : Shape self table)
    {later : HMapMem K V} (same : forall array, self.buckets = some array ->
      later.blocks array = heap.blocks array)
    {post : Unit -> HMapMem K V -> Prop}
    (holds : forall last : HMapMem K V,
      (forall array, self.buckets = some array -> last.blocks array = none) ->
      (forall addr, self.buckets ≠ some addr -> last.blocks addr = later.blocks addr) ->
      post () last) :
    Ends (deallocN self.al self.buckets .ofPointer self.bucketCount) later post := by
  cases buckets : self.buckets with
  | none =>
      have counted : self.bucketCount = 0 := by
        rw [shape.count, rep.none_iff.mp buckets]
        rfl
      rw [counted]
      simp only [deallocN, ends_bind]
      change Ends (demand (some _)) later _
      simp only [ends_demand_some, ends_dealloc_none shape.real]
      exact holds later (fun array impossible => by rw [buckets] at impossible; cases impossible)
        (fun _ _ => rfl)
  | some array =>
      rcases rep.array array buckets with ⟨slots, ⟨layout, fits, here⟩, chains⟩
      have nonempty : table ≠ [] := fun empty => by
        rw [rep.none_iff.mpr empty] at buckets
        cases buckets
      have positive : 0 < slots.length := by
        rw [chains.length]
        exact List.length_pos_iff.mpr nonempty
      have sized : 0 < layout.size := by
        unfold Layout.ckdArray ckdMul at fits
        split at fits
        · cases fits
          change 0 < 8 * slots.length
          omega
        · cases fits
      rw [← same array buckets] at here
      simp only [deallocN, ends_bind, shape.count, ← chains.length, fits,
        ends_demand_some, ends_dealloc_some shape.real sized here]
      refine holds _ ?_ ?_
      · intro other equal
        rw [buckets] at equal
        cases equal
        rw [Heap.put_blocks, update_self]
      · intro addr different
        rw [Heap.put_blocks, update_of_ne]
        rintro rfl
        exact different buckets

theorem Rep.array_not_mem_addrs {blocks : Blocks AlTag (HMapCell K V)} (rep : Rep blocks self table) {array : Addr}
    (buckets : self.buckets = some array) : array ∉ addrs table.flatten := by
  intro inside
  rcases mem_addrs.mp inside with ⟨entry, member, rfl⟩
  rcases rep.array _ buckets with ⟨slots, at_array, _⟩
  exact (rep.holds entry member).ne_array at_array rfl

namespace Moving

variable {blocks : Blocks AlTag (HMapCell K V)} {mid later : HMapMem K V} {array : Addr} {newCount : Nat}
  {filled : HMapTable K V}

/-- An array whose slots are all empty has been given nothing yet. -/
theorem start {al : Al} {layout : Layout} (fits : Layout.ofPointer.ckdArray newCount = some layout)
    (here : blocks array = some ⟨⟨al, layout⟩, .buckets (List.replicate newCount none)⟩) :
    Moving blocks blocks al array newCount [] (List.replicate newCount ([] : List (HMapEntry K V))) where
  slots := by
    refine ⟨List.replicate newCount none, ⟨layout, ?_, here⟩, Chains.replicate newCount⟩
    rw [List.length_replicate]
    exact fits
  count := List.length_replicate
  perm := by rw [List.flatten_replicate_nil]
  placed := by
    intro idx chain atTable entry member
    have nil := List.eq_of_mem_replicate (List.mem_of_getElem? atTable)
    rw [nil] at member
    exact absurd member List.not_mem_nil
  holds _ _ old := old
  outside _ _ _ := rfl

/-- One slot of the old array is read, and its chain is filed in the new one. -/
theorem ends_bucket (good : GoodCount newCount) (rep : Rep blocks self table) (shape : Shape self table)
    (notArray : array ∉ owned self table) (inside : idx < table.length)
    (moving : Moving blocks mid.blocks self.al array newCount (table.take idx).flatten filled) :
    Ends (do
      let head ← readSlot self.buckets idx
      relinkChain self (some array) newCount head) mid fun _ later =>
        exists filled, Moving blocks later.blocks self.al array newCount (table.take (idx + 1)).flatten filled := by
  have atTable := List.getElem?_eq_getElem inside
  have upTo : (table.take (idx + 1)).flatten = (table.take idx).flatten ++ table[idx] := by
    rw [List.take_succ_eq_append_getElem inside, List.flatten_append, List.flatten_singleton]
  rcases rep.bucket atTable with ⟨old, slots, head, buckets, at_old, chains, atSlot, walk⟩
  have first := walk.start_eq
  rw [Option.or_none] at first
  subst first
  have oldNotArray : old ≠ array := by
    rintro rfl
    exact notArray (mem_owned.mpr (Or.inl buckets))
  have oldNotMoved : old ∉ addrs (table.take idx).flatten := by
    have apart := rep.array_not_mem_addrs buckets
    rw [flatten_split atTable, List.append_assoc, addrs_append] at apart
    exact fun again => apart (List.mem_append_left _ again)
  have at_old' : ArrayAt mid.blocks self.al old slots := by
    rcases at_old with ⟨oldLayout, oldFits, here⟩
    exact ⟨oldLayout, oldFits, by rw [moving.outside old oldNotMoved oldNotArray]; exact here⟩
  have distinct := rep.distinct
  rw [flatten_split atTable, addrs_append] at distinct
  simp only [ends_bind, buckets, ends_readSlot at_old' atSlot]
  apply ends_relinkChain good rep shape atTable notArray (List.nodup_append.mp distinct).1 moving
  intro later filled moving
  exact ⟨filled, by rw [upTo]; exact moving⟩

theorem old_array (notArray : array ∉ owned self table) (rep : Rep blocks self table)
    (moving : Moving blocks mid.blocks self.al array newCount table.flatten filled) {old : Addr}
    (buckets : self.buckets = some old) : mid.blocks old = blocks old := by
  apply moving.outside old (rep.array_not_mem_addrs buckets)
  rintro rfl
  exact notArray (mem_owned.mpr (Or.inl buckets))

/-- All chains are filed and the old array is gone: the new one holds the map. -/
theorem rep_grown (rep : Rep blocks self table) (notArray : array ∉ owned self table)
    (moving : Moving blocks mid.blocks self.al array newCount table.flatten filled) (positive : 0 < newCount)
    (same : forall addr, self.buckets ≠ some addr -> later.blocks addr = mid.blocks addr) :
    Rep later.blocks { self with buckets := some array, bucketCount := newCount } filled := by
  have addrsPerm : (addrs filled.flatten).Perm (addrs table.flatten) := moving.perm.map _
  have notOld : self.buckets ≠ some array := fun equal => notArray (mem_owned.mpr (Or.inl equal))
  have still : forall entry, entry ∈ table.flatten -> later.blocks entry.addr = mid.blocks entry.addr :=
    fun entry member => same _ fun equal => rep.array_not_mem_addrs equal (addr_mem_addrs member)
  rcases moving.slots with ⟨slots, ⟨layout, fits, here⟩, chains⟩
  refine ⟨⟨nofun, ?_⟩, ?_, ?_, addrsPerm.nodup_iff.mpr rep.distinct⟩
  · rintro rfl
    exact absurd moving.count (Nat.ne_of_lt positive)
  · rintro other equal
    cases equal
    refine ⟨slots, ⟨layout, fits, by rw [same array notOld]; exact here⟩, chains.congr ?_⟩
    intro addr inside
    rcases mem_addrs.mp (addrsPerm.mem_iff.mp inside) with ⟨entry, member, rfl⟩
    exact nextOf_congr (still entry member)
  · intro entry member
    have whole := moving.perm.mem_iff.mp member
    exact (moving.holds _ _ (rep.holds entry whole)).congr (still entry whole)

theorem shape_grown (shape : Shape self table) (good : GoodCount newCount)
    (moving : Moving blocks mid.blocks self.al array newCount table.flatten filled)
    (room : table.flatten.length ≤ newCount) :
    Shape { self with buckets := some array, bucketCount := newCount } filled := by
  refine ⟨shape.real, shape.keyType, shape.valType, shape.layout, moving.count.symm, ?_, moving.placed, ?_, ?_⟩
  · rw [moving.count]
    exact Or.inr good
  · rw [moving.perm.length_eq]
    exact shape.len
  · rw [moving.perm.length_eq, moving.count]
    exact room

/-- The new array took the place of the old one among the blocks of the map. -/
theorem evolves {before : Blocks AlTag (HMapCell K V)} (free : before array = none)
    (granted : forall addr, addr ≠ array -> blocks addr = before addr)
    (moving : Moving blocks mid.blocks self.al array newCount table.flatten filled)
    (gone : forall old, self.buckets = some old -> later.blocks old = none)
    (same : forall addr, self.buckets ≠ some addr -> later.blocks addr = mid.blocks addr) :
    Evolves before later.blocks (owned self table)
      (owned { self with buckets := some array, bucketCount := newCount } filled) := by
  have after : forall addr, addr ∈ owned { self with buckets := some array, bucketCount := newCount } filled <->
      addr = array ∨ addr ∈ addrs table.flatten := by
    intro addr
    have addrsPerm : (addrs filled.flatten).Perm (addrs table.flatten) := moving.perm.map _
    rw [mem_owned, addrsPerm.mem_iff, Option.some.injEq, eq_comm]
  constructor
  · intro addr notBefore notAfter
    rw [after, not_or] at notAfter
    rw [same addr (fun equal => notBefore (mem_owned.mpr (Or.inl equal))),
      moving.outside addr notAfter.2 notAfter.1, granted addr notAfter.1]
  · intro addr inAfter notBefore
    rcases (after addr).mp inAfter with rfl | inside
    · exact free
    · exact absurd (mem_owned.mpr (Or.inr inside)) notBefore
  · intro addr inBefore notAfter
    rcases mem_owned.mp inBefore with atArray | inside
    · exact gone addr atArray
    · exact absurd ((after addr).mpr (Or.inr inside)) notAfter

end Moving

/-- `rehash` either is refused and leaves everything as it was, or files the
same entries in an array of the new count. -/
theorem ends_rehash (rep : Rep heap.blocks self table) (shape : Shape self table)
    {newCount k : Nat} (three : 3 ≤ k) (power : newCount = 2 ^ k)
    (room : table.flatten.length ≤ newCount) {post : Status × HMap K -> HMapMem K V -> Prop}
    (refused : heap.Spared (post (.errNoMem, self)))
    (granted : forall (grown : HMap K) (fresh : HMapTable K V) (later : HMapMem K V),
      Steps heap.blocks later.blocks self grown table fresh ->
      grown.bucketCount = newCount -> fresh.flatten.Perm table.flatten ->
      post (.ok, grown) later) :
    Ends (rehash self newCount) heap post := by
  have positive : 0 < newCount := power ▸ Nat.two_pow_pos k
  simp only [rehash, ends_bind, ends_require, power, isPow2_two_pow, true_and, allocN]
  rw [← power]
  cases fits : Layout.ofPointer.ckdArray newCount with
  | none =>
      simp only [ends_pure]
      exact refused heap rfl
  | some layout =>
      have good := goodCount_of_fits three power fits
      refine ends_alloc shape.real ?_ ?_
      · intro later same
        simp only [ends_pure]
        exact refused later same
      · intro _ array grantedHeap free blocksEq
        have notArray : array ∉ owned self table := fun mine => rep.live mine free
        have rep' : Rep grantedHeap.blocks self table := blocksEq ▸ rep.of_grant free
        have start : Moving grantedHeap.blocks grantedHeap.blocks self.al array newCount []
            (List.replicate newCount ([] : List (HMapEntry K V))) :=
          Moving.start fits (by rw [blocksEq, update_self])
        simp only [ends_bind]
        refine ends_countUp (fun idx _ mid => exists filled,
          Moving grantedHeap.blocks mid.blocks self.al array newCount (table.take idx).flatten filled)
          (show 0 + self.bucketCount = table.length by rw [shape.count]; omega) ?_ ?_
          ⟨_, by rw [List.take_zero]; exact start⟩
        · rintro idx _ mid _ inside ⟨filled, moving⟩
          exact moving.ends_bucket good rep' shape notArray inside
        · rintro _ mid ⟨filled, moving⟩
          rw [List.take_length] at moving
          apply ends_deallocArray rep' shape fun old buckets => moving.old_array notArray rep' buckets
          intro last gone same
          have repNew := moving.rep_grown rep' notArray positive same
          have shapeNew := moving.shape_grown shape good room
          have evolves := moving.evolves free (fun addr other => by rw [blocksEq, update_of_ne other]) gone same
          simp only [ends_assertHMap (shapeNew.asserts repNew), ends_pure]
          exact granted _ filled last ⟨repNew, shapeNew, evolves, rfl⟩ rfl moving.perm

end HMap
end TerseDsa
