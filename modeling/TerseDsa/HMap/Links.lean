import TerseDsa.HMap.Table
import Mathlib.Data.List.Induction

namespace TerseDsa

open Foundation Run
open Function (update update_self update_of_ne)

/-!
# Reading and editing chains

What the pointer steps of `ds/hmap` do to the table.  A link pointer stands at
a place inside one chain: behind the entries it has passed.  `linkAt` is the
link at such a place, and the lemmas here say what is read through it, and
that taking out the node behind it takes the entry out of the table.
-/

namespace HMap

variable {K V C : Type} {heap : HMapMem K V} {self : HMap K} {table : HMapTable K V}
  {tag : AlTag} {entry : HMapEntry K V} {idx : Nat} {chain : List (HMapEntry K V)}

/-! ## Single accesses -/

theorem ends_readNode (holds : Holds heap.blocks tag entry)
    {post : HMapNode K V -> HMapMem K V -> Prop} :
    Ends (readNode entry.addr) heap post <->
      post (nodeOf entry (nextOf heap.blocks entry.addr)) heap := by
  simp only [readNode, ends_bind, Heap.ends_read holds, ends_pure]

theorem ends_writeNode (holds : Holds heap.blocks tag entry) {node : HMapNode K V}
    {post : Unit -> HMapMem K V -> Prop} :
    Ends (writeNode entry.addr node) heap post <->
      post () (heap.put entry.addr (some ⟨tag, .node node⟩)) := by
  simp only [writeNode, ends_bind, ends_readNode holds, Heap.ends_write holds]

theorem ends_readSlots {al : Al} {array : Addr} {slots : List (Option Addr)}
    (at_array : ArrayAt heap.blocks al array slots)
    {post : List (Option Addr) -> HMapMem K V -> Prop} :
    Ends (readSlots (some array)) heap post <-> post slots heap := by
  rcases at_array with ⟨layout, _, here⟩
  simp only [readSlots, ends_bind, ends_demand_some, Heap.ends_read here, ends_pure]

theorem ends_readSlot {al : Al} {array : Addr} {slots : List (Option Addr)} {ptr : Option Addr}
    (at_array : ArrayAt heap.blocks al array slots) (inside : slots[idx]? = some ptr)
    {post : Option Addr -> HMapMem K V -> Prop} :
    Ends (readSlot (some array) idx) heap post <-> post ptr heap := by
  simp only [readSlot, ends_bind, ends_readSlots at_array, inside, ends_demand_some]

/-- Overwriting a slot leaves a bucket array, of the same layout. -/
theorem ends_writeSlot {al : Al} {array : Addr} {slots : List (Option Addr)} {ptr : Option Addr}
    (at_array : ArrayAt heap.blocks al array slots) (inside : idx < slots.length)
    {post : Unit -> HMapMem K V -> Prop}
    (holds : forall layout, Layout.ofPointer.ckdArray slots.length = some layout ->
      post () (heap.put array (some ⟨(al, layout), .buckets (slots.set idx ptr)⟩))) :
    Ends (writeSlot (some array) idx ptr) heap post := by
  rcases at_array with ⟨layout, fits, here⟩
  simp only [writeSlot, ends_bind, ends_demand_some,
    ends_readSlots ⟨layout, fits, here⟩, ends_require, inside, true_and, Heap.ends_write here]
  exact holds layout fits

theorem arrayAt_put {al : Al} {array : Addr} {slots : List (Option Addr)} {layout : Layout}
    {blocks : Blocks AlTag (HMapCell K V)} {ptr : Option Addr}
    (fits : Layout.ofPointer.ckdArray slots.length = some layout) :
    ArrayAt (update blocks array (some ⟨(al, layout), .buckets (slots.set idx ptr)⟩))
      al array (slots.set idx ptr) :=
  ⟨layout, by rw [List.length_set]; exact fits, by rw [update_self]⟩

theorem nextOf_put_slots {al : Al} {array : Addr} {slots : List (Option Addr)}
    {blocks : Blocks AlTag (HMapCell K V)} (at_array : ArrayAt blocks al array slots)
    (layout : Layout) (changed : List (Option Addr)) :
    nextOf (update blocks array (some ⟨(al, layout), .buckets changed⟩)) =
      nextOf blocks :=
  nextOf_update_other (nextOf_of_array at_array) (by intro tag node same; cases same)

/-! ## Buckets of a table in memory -/

/-- A bucket of the table: its slot, and the walk from it. -/
theorem Rep.bucket {blocks : Blocks AlTag (HMapCell K V)} (rep : Rep blocks self table)
    (atTable : table[idx]? = some chain) :
    exists array slots head, self.buckets = some array ∧ ArrayAt blocks self.al array slots ∧
      Chains (nextOf blocks) slots table ∧ slots[idx]? = some head ∧
      Seg (nextOf blocks) head (addrs chain) none := by
  have inside := (List.getElem?_eq_some_iff.mp atTable).1
  cases buckets : self.buckets with
  | none =>
      rw [rep.none_iff.mp buckets] at inside
      exact absurd inside (Nat.not_lt_zero _)
  | some array =>
      rcases rep.array array buckets with ⟨slots, at_array, chains⟩
      have atSlot := List.getElem?_eq_getElem (chains.length ▸ inside)
      exact ⟨array, slots, _, rfl, at_array, chains, atSlot, chains.chain idx _ chain atSlot atTable⟩

/-- Distinct entries make the buckets disjoint. -/
theorem bucket_disjoint {i j : Nat} {left right : List (HMapEntry K V)}
    (distinct : (addrs table.flatten).Nodup) (atLeft : table[i]? = some left)
    (atRight : table[j]? = some right) (different : j ≠ i) {addr : Addr}
    (inRight : addr ∈ addrs right) : addr ∉ addrs left := by
  intro inLeft
  rcases mem_addrs.mp inRight with ⟨entry, inside, rfl⟩
  rw [flatten_split atLeft, addrs_append, addrs_append] at distinct
  have outer := List.nodup_append.mp distinct
  have inner := List.nodup_append.mp outer.1
  rcases Nat.lt_or_gt_of_ne different with less | greater
  · have early : (table.take i)[j]? = some right := by
      rw [List.getElem?_take_of_lt less]
      exact atRight
    exact inner.2.2 _ (addr_mem_addrs (mem_flatten_of_bucket early inside)) _ inLeft rfl
  · have late : (table.drop (i + 1))[j - (i + 1)]? = some right := by
      rw [List.getElem?_drop, show i + 1 + (j - (i + 1)) = j by omega]
      exact atRight
    exact outer.2.2 _ (List.mem_append_right _ inLeft) _
      (addr_mem_addrs (mem_flatten_of_bucket late inside)) rfl

/-- Replace one chain when links inside it, or outside the table, changed. -/
theorem Chains.replace {next other : Addr -> Option Addr} {slots : List (Option Addr)}
    {changed : List (HMapEntry K V)} {head : Option Addr}
    (chains : Chains next slots table) (distinct : (addrs table.flatten).Nodup)
    (atTable : table[idx]? = some chain)
    (agree : forall addr, addr ∈ addrs table.flatten -> addr ∉ addrs chain ->
      other addr = next addr)
    (walk : Seg other head (addrs changed) none) :
    Chains other (slots.set idx head) (table.set idx changed) := by
  refine ⟨by rw [List.length_set, List.length_set]; exact chains.length, ?_⟩
  intro at_ head' chain' atSlot atChanged
  rcases getElem?_set_cases atChanged with ⟨rfl, rfl⟩ | ⟨different, same⟩
  · have inside : at_ < slots.length := chains.length ▸ (List.getElem?_eq_some_iff.mp atTable).1
    rw [List.getElem?_set_self inside] at atSlot
    cases atSlot
    exact walk
  · rw [List.getElem?_set_ne (fun equal => different equal.symm)] at atSlot
    refine (chains.chain at_ head' chain' atSlot same).congr ?_
    intro addr member
    rcases mem_addrs.mp member with ⟨entry, inside, rfl⟩
    exact agree _ (addr_mem_addrs (mem_flatten_of_bucket same inside))
      (bucket_disjoint distinct atTable same different member)

/-! ## Link pointers -/

/-- The link behind the entries `passed` of bucket `idx`. -/
def linkAt (idx : Nat) (passed : List (HMapEntry K V)) : HMapLink :=
  match passed.getLast? with
  | none => .bucket idx
  | some last => .next last.addr

@[simp] theorem linkAt_nil : linkAt idx ([] : List (HMapEntry K V)) = .bucket idx := rfl

@[simp] theorem linkAt_snoc (passed : List (HMapEntry K V)) (last : HMapEntry K V) :
    linkAt idx (passed ++ [last]) = .next last.addr := by
  simp only [linkAt, List.getLast?_concat]

/-- Through the link behind `passed` one reads the first entry that follows. -/
theorem ends_readLink (rep : Rep heap.blocks self table) {passed rest : List (HMapEntry K V)}
    (atTable : table[idx]? = some (passed ++ rest))
    {post : Option Addr -> HMapMem K V -> Prop} :
    Ends (readLink self (linkAt idx passed)) heap post <->
      post (addrs rest).head? heap := by
  rcases rep.bucket atTable with ⟨array, slots, head, buckets, at_array, chains, atSlot, walk⟩
  cases passed using List.reverseRecOn with
  | nil =>
      simp only [linkAt_nil, readLink, buckets, ends_readSlot at_array atSlot]
      have start := walk.start_eq
      rw [List.nil_append, Option.or_none] at start
      rw [start]
  | append_singleton before last =>
      have member : last ∈ table.flatten := mem_flatten_of_bucket atTable
        (List.mem_append_left _ (List.mem_append_right _ (List.mem_singleton_self last)))
      simp only [linkAt_snoc, readLink, ends_bind, ends_readNode (rep.holds last member),
        ends_pure, nodeOf]
      rw [addrs_append, addrs_append] at walk
      rcases Seg.append_iff.mp walk with ⟨middle, first, second⟩
      have link : nextOf heap.blocks last.addr = middle := (Seg.snoc_iff.mp first).2
      have start := second.start_eq
      rw [Option.or_none] at start
      rw [link, start]

/-- The table and the heap after the link behind `passed` was led past `entry`. -/
structure Unlinked (map : HMap K) (blocks changed : Blocks AlTag (HMapCell K V))
    (table : HMapTable K V) (idx : Nat) (passed : List (HMapEntry K V)) (entry : HMapEntry K V)
    (rest : List (HMapEntry K V)) : Prop where
  array : exists array slots, map.buckets = some array ∧ ArrayAt changed map.al array slots ∧
    Chains (nextOf changed) slots (table.set idx (passed ++ rest))
  holds : forall other, other ∈ table.flatten -> Holds changed (map.al, map.node) other
  evolves : Evolves blocks changed (owned map table) (owned map table)

/-- Writing an entry's own `next` into the link that points at it unlinks it. -/
theorem ends_writeLink (rep : Rep heap.blocks self table)
    {passed rest : List (HMapEntry K V)} (atTable : table[idx]? = some (passed ++ entry :: rest))
    {post : Unit -> HMapMem K V -> Prop}
    (holds : forall later : HMapMem K V,
      Unlinked self heap.blocks later.blocks table idx passed entry rest -> post () later) :
    Ends (writeLink self (linkAt idx passed) (nextOf heap.blocks entry.addr)) heap post := by
  rcases rep.bucket atTable with ⟨array, slots, head, buckets, at_array, chains, atSlot, walk⟩
  have chainNodup : (addrs (passed ++ entry :: rest)).Nodup := walk.nodup
  cases passed using List.reverseRecOn with
  | nil =>
      have inside := (List.getElem?_eq_some_iff.mp atSlot).1
      simp only [linkAt_nil, writeLink, buckets]
      refine ends_writeSlot at_array inside ?_
      intro layout fits
      have links := nextOf_put_slots at_array layout
        (slots.set idx (nextOf heap.blocks entry.addr))
      apply holds
      constructor
      · refine ⟨array, _, buckets, arrayAt_put fits, ?_⟩
        rw [Heap.put_blocks, links]
        exact chains.set idx walk.2
      · intro other member
        have old := rep.holds other member
        exact old.update_of_ne (old.ne_array at_array)
      · exact Evolves.of_write (mem_owned.mpr (Or.inl buckets))
  | append_singleton before last =>
      have member : last ∈ table.flatten := mem_flatten_of_bucket atTable
        (List.mem_append_left _ (List.mem_append_right _ (List.mem_singleton_self last)))
      have here := rep.holds last member
      simp only [linkAt_snoc, writeLink, ends_bind, ends_readNode here, ends_writeNode here]
      have links := nextOf_update_node heap.blocks (self.al, self.node) last.addr
        (nodeOf last (nextOf heap.blocks entry.addr))
      apply holds
      rw [addrs_append, addrs_append, addrs_cons, addrs_nil] at walk
      have parts := List.nodup_append.mp
        (show (addrs before ++ [last.addr] ++ (entry.addr :: addrs rest)).Nodup by
          simpa only [addrs_append, addrs_cons, addrs_nil] using chainNodup)
      have lastNotBefore : last.addr ∉ addrs before := fun again =>
        (List.nodup_append.mp parts.1).2.2 _ again _ (List.mem_singleton_self _) rfl
      have lastNotRest : last.addr ∉ addrs rest := fun again =>
        parts.2.2 _ (List.mem_append_right _ (List.mem_singleton_self _)) _
          (List.mem_cons_of_mem _ again) rfl
      rcases Seg.append_iff.mp walk with ⟨middle, first, second⟩
      constructor
      · refine ⟨array, slots, buckets, at_array.update_of_ne (fun equal =>
          here.ne_array at_array equal.symm), ?_⟩
        rw [Heap.put_blocks]
        change Chains (nextOf (update heap.blocks last.addr
          (some ⟨(self.al, self.node), .node (nodeOf last (nextOf heap.blocks entry.addr))⟩)))
          slots _
        rw [links]
        have replaced : Chains (update (nextOf heap.blocks) last.addr
            (nextOf heap.blocks entry.addr)) (slots.set idx head)
            (table.set idx (before ++ [last] ++ rest)) := chains.replace rep.distinct atTable
          (by
            intro addr _ notChain
            refine update_of_ne ?_ _ _
            rintro rfl
            exact notChain (addr_mem_addrs (List.mem_append_left _
              (List.mem_append_right _ (List.mem_singleton_self last)))))
          (by
            rw [addrs_append, addrs_append]
            exact (first.redirect lastNotBefore).append
              (second.2.update_of_not_mem lastNotRest))
        have same : slots.set idx head = slots := by
          rcases List.getElem?_eq_some_iff.mp atSlot with ⟨inside, value⟩
          rw [← value, List.set_getElem_self]
        rw [same] at replaced
        exact replaced
      · intro other inside
        by_cases equal : other.addr = last.addr
        · have sameEntry : other = last := by
            have injective := List.inj_on_of_nodup_map rep.distinct inside member equal
            exact injective
          rw [sameEntry]
          exact Holds.update_self rfl
        · exact (rep.holds other inside).update_of_ne equal
      · exact Evolves.of_write (mem_owned.mpr (Or.inr (addr_mem_addrs member)))

/-- The table after one entry of bucket `idx` was dropped. -/
theorem set_drop_perm {passed rest : List (HMapEntry K V)}
    (atTable : table[idx]? = some (passed ++ entry :: rest)) :
    table.flatten.Perm (entry :: (table.set idx (passed ++ rest)).flatten) := by
  rcases flatten_set_perm atTable (passed ++ rest) with ⟨others, whole, fewer⟩
  refine whole.trans (List.Perm.trans ?_ (fewer.symm.cons entry))
  exact List.perm_middle.append_right others

/-- Dropping an entry keeps the form of the map, one entry shorter. -/
theorem Shape.drop (shape : Shape self table) {passed rest : List (HMapEntry K V)}
    (atTable : table[idx]? = some (passed ++ entry :: rest)) :
    Shape { self with len := self.len - 1 } (table.set idx (passed ++ rest)) := by
  have fewer := (set_drop_perm atTable).length_eq
  rw [List.length_cons] at fewer
  have len := shape.len
  have load := shape.load
  refine ⟨shape.real, shape.keyType, shape.valType, shape.layout, ?_, ?_, ?_, ?_, ?_⟩
  · rw [List.length_set]
    exact shape.count
  · rw [List.length_set]
    exact shape.power
  · intro at_ chain atChanged other member
    rw [List.length_set]
    rcases getElem?_set_cases atChanged with ⟨rfl, rfl⟩ | ⟨_, same⟩
    · refine shape.placed at_ _ atTable other ?_
      rcases List.mem_append.mp member with before | behind
      · exact List.mem_append_left _ before
      · exact List.mem_append_right _ (List.mem_cons_of_mem _ behind)
    · exact shape.placed at_ chain same other member
  · change self.len - 1 = _
    omega
  · rw [List.length_set]
    omega

/-- `remove_at` takes the entry behind the link out of the table, and frees
its node and nothing else. -/
theorem ends_removeAt (rep : Rep heap.blocks self table) (shape : Shape self table)
    {passed rest : List (HMapEntry K V)} (atTable : table[idx]? = some (passed ++ entry :: rest))
    {post : HMap K -> HMapMem K V -> Prop}
    (holds : forall later : HMapMem K V,
      Rep later.blocks { self with len := self.len - 1 } (table.set idx (passed ++ rest)) ->
      Evolves heap.blocks later.blocks (owned self table)
        (owned { self with len := self.len - 1 } (table.set idx (passed ++ rest))) ->
      post { self with len := self.len - 1 } later) :
    Ends (removeAt self (linkAt idx passed)) heap post := by
  have member : entry ∈ table.flatten := mem_flatten_of_bucket atTable
    (List.mem_append_right _ List.mem_cons_self)
  have here := rep.holds entry member
  have perm := set_drop_perm atTable
  have addrsPerm : (addrs table.flatten).Perm
      (entry.addr :: addrs (table.set idx (passed ++ rest)).flatten) := perm.map _
  have remaining := List.nodup_cons.mp (addrsPerm.nodup_iff.mp rep.distinct)
  simp only [removeAt, ends_bind, ends_readLink rep atTable, addrs_cons, List.head?_cons,
    ends_demand_some, ends_readNode here, nodeOf]
  refine ends_writeLink rep atTable ?_
  intro later unlinked
  rcases unlinked.array with ⟨array, slots, buckets, at_array, chains⟩
  have there := unlinked.holds entry member
  have nodeNotArray := there.ne_array at_array
  have lenEq : wrapSub self.len 1 = self.len - 1 := by
    have positive := perm.length_eq
    rw [List.length_cons] at positive
    have len := shape.len
    have small := shape.len_lt
    exact wrapSub_eq (by unfold sizeRange; omega) (by omega)
  simp only [deallocNode, ends_dealloc_some shape.real shape.nodeSized there, ends_pure, lenEq]
  have links : nextOf (later.put entry.addr none).blocks =
      update (nextOf later.blocks) entry.addr none := by
    funext addr
    by_cases same : addr = entry.addr
    · rw [same, update_self]
      exact nextOf_of_free (by rw [Heap.put_blocks, update_self])
    · rw [update_of_ne same]
      exact nextOf_congr (by rw [Heap.put_blocks, update_of_ne same])
  apply holds
  · constructor
    · change self.buckets = none <-> _
      rw [rep.none_iff, ← List.length_eq_zero_iff, ← List.length_eq_zero_iff, List.length_set]
    · intro other same
      rw [buckets] at same
      cases same
      refine ⟨slots, at_array.update_of_ne (fun equal => nodeNotArray equal.symm), ?_⟩
      rw [links]
      refine chains.congr ?_
      intro addr inside
      refine update_of_ne ?_ _ _
      rintro rfl
      exact remaining.1 inside
    · intro other inside
      refine (unlinked.holds other (perm.mem_iff.mpr (List.mem_cons_of_mem _ inside))).update_of_ne ?_
      intro equal
      exact remaining.1 (equal ▸ addr_mem_addrs inside)
    · exact remaining.2
  · refine unlinked.evolves.trans (Evolves.of_release
      (mem_owned.mpr (Or.inr (addr_mem_addrs member))) ?_)
    intro addr
    rw [mem_owned, mem_owned, addrsPerm.mem_iff, List.mem_cons]
    constructor
    · rintro (atArray | inside)
      · refine ⟨?_, Or.inl atArray⟩
        rintro rfl
        rw [show self.buckets = _ from buckets] at atArray
        cases atArray
        exact nodeNotArray rfl
      · refine ⟨?_, Or.inr (Or.inr inside)⟩
        rintro rfl
        exact remaining.1 inside
    · rintro ⟨different, atArray | same | inside⟩
      · exact Or.inl atArray
      · exact absurd same different
      · exact Or.inr inside

end HMap
end TerseDsa
