import TerseDsa.HMap.Model
import TerseDsa.Foundation.Links

namespace TerseDsa

open Foundation

/-!
# The table a map stands for

A map's blocks are described by a table: for every bucket the entries of its
chain, in order.  `HMap.Rep` ties the table to the heap: the slots of the
bucket array and the `next` links spell out the chains, and every entry is the
node at its address.  `HMap.Shape` is what the map's own fields and the
table's form have to satisfy.  Neither mentions the key equality, so both hold
whatever the callbacks answer.
-/

/-- One entry: the node at `addr`, and what it holds. -/
structure HMapEntry (K V : Type) where
  addr : Addr
  hash : Hash
  key : K
  val : Option V

/-- The chains of a map, bucket by bucket. -/
abbrev HMapTable (K V : Type) := List (List (HMapEntry K V))

namespace HMap

variable {K V C : Type}

/-- The addresses of some entries. -/
def addrs (entries : List (HMapEntry K V)) : List Addr := entries.map HMapEntry.addr

@[simp] theorem addrs_nil : addrs ([] : List (HMapEntry K V)) = [] := rfl

@[simp] theorem addrs_cons (entry : HMapEntry K V) (rest : List (HMapEntry K V)) :
    addrs (entry :: rest) = entry.addr :: addrs rest := rfl

@[simp] theorem addrs_append (left right : List (HMapEntry K V)) :
    addrs (left ++ right) = addrs left ++ addrs right := List.map_append

theorem mem_addrs {entries : List (HMapEntry K V)} {addr : Addr} :
    addr ∈ addrs entries <-> exists entry, entry ∈ entries ∧ entry.addr = addr :=
  List.mem_map

theorem addr_mem_addrs {entries : List (HMapEntry K V)} {entry : HMapEntry K V}
    (member : entry ∈ entries) : entry.addr ∈ addrs entries :=
  List.mem_map_of_mem member

/-- An entry's node, with the link it carries. -/
def nodeOf (entry : HMapEntry K V) (next : Option Addr) : HMapNode K V :=
  ⟨next, entry.hash, entry.key, entry.val⟩

/-- The `next` link of the node at an address. -/
def nextOf (blocks : Blocks AlTag (HMapCell K V)) (addr : Addr) : Option Addr :=
  match blocks addr with
  | some ⟨_, .node node⟩ => node.next
  | _ => none

/-- The block at the entry's address is the entry's node. -/
def Holds (blocks : Blocks AlTag (HMapCell K V)) (tag : AlTag) (entry : HMapEntry K V) : Prop :=
  blocks entry.addr = some ⟨tag, .node (nodeOf entry (nextOf blocks entry.addr))⟩

/-- The block at `array` is a bucket array with these slots. -/
def ArrayAt (blocks : Blocks AlTag (HMapCell K V)) (al : Al) (array : Addr)
    (slots : List (Option Addr)) : Prop :=
  exists layout, Layout.ofPointer.ckdArray slots.length = some layout ∧
    blocks array = some ⟨(al, layout), .buckets slots⟩

/-- Slots and links spell out the chains of the table. -/
structure Chains (next : Addr -> Option Addr) (slots : List (Option Addr))
    (table : HMapTable K V) : Prop where
  length : slots.length = table.length
  chain : forall (idx : Nat) (head : Option Addr) (chain : List (HMapEntry K V)),
    slots[idx]? = some head -> table[idx]? = some chain -> Seg next head (addrs chain) none

/-- The heap holds the table. -/
structure Rep (blocks : Blocks AlTag (HMapCell K V)) (map : HMap K) (table : HMapTable K V) :
    Prop where
  none_iff : map.buckets = none <-> table = []
  array : forall array, map.buckets = some array ->
    exists slots, ArrayAt blocks map.al array slots ∧ Chains (nextOf blocks) slots table
  holds : forall entry, entry ∈ table.flatten -> Holds blocks (map.al, map.node) entry
  distinct : (addrs table.flatten).Nodup

/-- What the fields of the map and the form of its table satisfy. -/
structure Shape (map : HMap K) (table : HMapTable K V) : Prop where
  real : map.al.isSome = true
  keyType : map.key.isType = true
  valType : map.val.isType = true ∨ (map.val.size = 0 ∧ Layout.isAlign map.val.align = true)
  layout : nodeLayout map.key map.val = some (map.node, map.keyOffset, map.valOffset)
  count : map.bucketCount = table.length
  power : table.length = 0 ∨ exists k, 3 ≤ k ∧ k < 61 ∧ table.length = 2 ^ k
  placed : forall (idx : Nat) (chain : List (HMapEntry K V)), table[idx]? = some chain ->
    forall entry, entry ∈ chain -> bucketIdx entry.hash table.length = idx
  len : map.len = table.flatten.length
  load : table.flatten.length ≤ table.length

/-- The blocks a map owns: its bucket array and its nodes. -/
def owned (self : HMap K) (table : HMapTable K V) : List Addr :=
  self.buckets.toList ++ addrs table.flatten

theorem mem_owned {self : HMap K} {table : HMapTable K V} {addr : Addr} :
    addr ∈ owned self table <-> self.buckets = some addr ∨ addr ∈ addrs table.flatten := by
  simp only [owned, List.mem_append, Option.mem_toList]

namespace Shape

variable {self : HMap K} {table : HMapTable K V}

/-- No node is smaller than its header, so node requests are never empty. -/
theorem nodeSized (shape : Shape self table) : 0 < self.node.size := by
  have layout := shape.layout
  unfold nodeLayout at layout
  rcases Option.bind_eq_some_iff.mp layout with ⟨⟨header, keyOffset⟩, first, rest⟩
  have grown : 16 ≤ header.size := Layout.ckdExtend_size_le first
  dsimp only at rest
  by_cases valued : self.val.size > 0
  · rw [if_pos valued] at rest
    rcases Option.bind_eq_some_iff.mp rest with ⟨⟨both, valOffset⟩, second, rest⟩
    rcases Option.bind_eq_some_iff.mp rest with ⟨padded, third, same⟩
    have node : padded = self.node := congrArg Prod.fst (Option.some.inj same)
    have more := Layout.ckdExtend_size_le second
    have last := Layout.ckdPad_size_le third
    rw [← node]
    exact Nat.lt_of_lt_of_le (by omega) (Nat.le_trans more last)
  · rw [if_neg valued] at rest
    rcases Option.bind_eq_some_iff.mp rest with ⟨padded, second, same⟩
    have node : padded = self.node := congrArg Prod.fst (Option.some.inj same)
    have last := Layout.ckdPad_size_le second
    rw [← node]
    exact Nat.lt_of_lt_of_le (by omega) last

/-- A bucket count is far below the range of `size_t`. -/
theorem count_lt (shape : Shape self table) : table.length < 2 ^ 61 := by
  rcases shape.power with empty | ⟨k, _, small, same⟩
  · omega
  · rw [same]
    exact Nat.pow_lt_pow_right (by omega) small

theorem len_lt (shape : Shape self table) : self.len < 2 ^ 61 := by
  have bounded := shape.count_lt
  have load := shape.load
  have len := shape.len
  omega

theorem asserts {blocks : Blocks AlTag (HMapCell K V)} (shape : Shape self table)
    (rep : Rep blocks self table) : self.Asserts := by
  refine ⟨shape.keyType, shape.real, ?_, ?_, ?_⟩
  · rw [shape.count, rep.none_iff, List.length_eq_zero_iff]
  · rw [shape.count]
    rcases shape.power with empty | ⟨k, _, _, same⟩
    · exact Or.inl empty
    · exact Or.inr (by rw [same, isPow2_two_pow])
  · have load := shape.load
    have len := shape.len
    have count := shape.count
    omega

end Shape

/-! ## Links and nodes under an update -/

section Update

variable {blocks : Blocks AlTag (HMapCell K V)} {tag : AlTag} {addr : Addr}

theorem Holds.live {entry : HMapEntry K V} (holds : Holds blocks tag entry) :
    blocks entry.addr ≠ none := by
  rw [show blocks entry.addr = _ from holds]
  exact Option.some_ne_none _

theorem nextOf_update_node (blocks : Blocks AlTag (HMapCell K V)) (tag : AlTag) (addr : Addr)
    (node : HMapNode K V) :
    nextOf (Function.update blocks addr (some ⟨tag, .node node⟩)) =
      Function.update (nextOf blocks) addr node.next := by
  funext other
  by_cases same : other = addr
  · subst other
    simp only [nextOf, Function.update_self]
  · simp only [nextOf, Function.update_of_ne same]

/-- Writing a block that is not a node leaves all links alone. -/
theorem nextOf_update_other {entry : Option (Block AlTag (HMapCell K V))}
    (before : nextOf blocks addr = none)
    (after : forall tag node, entry ≠ some ⟨tag, .node node⟩) :
    nextOf (Function.update blocks addr entry) = nextOf blocks := by
  funext other
  by_cases same : other = addr
  · subst other
    rw [before]
    simp only [nextOf, Function.update_self]
  · simp only [nextOf, Function.update_of_ne same]

theorem nextOf_of_array {al : Al} {slots : List (Option Addr)}
    (array : ArrayAt blocks al addr slots) : nextOf blocks addr = none := by
  rcases array with ⟨layout, _, here⟩
  simp only [nextOf, here]

theorem nextOf_of_free (free : blocks addr = none) : nextOf blocks addr = none := by
  simp only [nextOf, free]

theorem Holds.update_of_ne {entry : HMapEntry K V} {block : Option (Block AlTag (HMapCell K V))}
    (holds : Holds blocks tag entry) (different : entry.addr ≠ addr) :
    Holds (Function.update blocks addr block) tag entry := by
  unfold Holds nextOf at *
  rw [Function.update_of_ne different]
  exact holds

/-- A node whose link changed still holds its entry. -/
theorem Holds.update_self {entry : HMapEntry K V} {next : Option Addr}
    (at_entry : entry.addr = addr) :
    Holds (Function.update blocks addr (some ⟨tag, .node (nodeOf entry next)⟩)) tag entry := by
  subst addr
  unfold Holds
  rw [nextOf_update_node, Function.update_self, Function.update_self]
  rfl

theorem Holds.ne_array {entry : HMapEntry K V} {al : Al} {slots : List (Option Addr)}
    (holds : Holds blocks tag entry) (array : ArrayAt blocks al addr slots) :
    entry.addr ≠ addr := by
  rintro rfl
  rcases array with ⟨layout, _, here⟩
  rw [show blocks entry.addr = _ from holds] at here
  cases here

theorem ArrayAt.update_of_ne {al : Al} {array : Addr} {slots : List (Option Addr)}
    {block : Option (Block AlTag (HMapCell K V))} (at_array : ArrayAt blocks al array slots)
    (different : array ≠ addr) :
    ArrayAt (Function.update blocks addr block) al array slots := by
  rcases at_array with ⟨layout, fits, here⟩
  exact ⟨layout, fits, by rw [Function.update_of_ne different]; exact here⟩

/-- What a node says is decided by its block alone. -/
theorem Holds.congr {other : Blocks AlTag (HMapCell K V)} {entry : HMapEntry K V}
    (holds : Holds blocks tag entry) (same : other entry.addr = blocks entry.addr) :
    Holds other tag entry := by
  unfold Holds nextOf at *
  rw [same]
  exact holds

theorem nextOf_congr {other : Blocks AlTag (HMapCell K V)} (same : other addr = blocks addr) :
    nextOf other addr = nextOf blocks addr := by
  simp only [nextOf, same]

end Update

/-! ## Chains under an update -/

namespace Chains

variable {next other : Addr -> Option Addr} {slots : List (Option Addr)} {table : HMapTable K V}

theorem congr (chains : Chains next slots table)
    (agree : forall addr, addr ∈ addrs table.flatten -> other addr = next addr) :
    Chains other slots table := by
  refine ⟨chains.length, ?_⟩
  intro idx head chain atSlot atTable
  refine (chains.chain idx head chain atSlot atTable).congr ?_
  intro addr member
  rcases mem_addrs.mp member with ⟨entry, inside, rfl⟩
  exact agree _ (addr_mem_addrs (List.mem_flatten_of_mem (List.mem_of_getElem? atTable) inside))

/-- Replace one chain, with the slot that leads to it. -/
theorem set (chains : Chains next slots table) (idx : Nat) {head : Option Addr}
    {chain : List (HMapEntry K V)} (walk : Seg next head (addrs chain) none) :
    Chains next (slots.set idx head) (table.set idx chain) := by
  refine ⟨by rw [List.length_set, List.length_set]; exact chains.length, ?_⟩
  intro at_ head' chain' atSlot atTable
  rw [List.getElem?_set] at atSlot atTable
  by_cases same : idx = at_
  · subst idx
    rw [if_pos rfl] at atSlot atTable
    by_cases inside : at_ < table.length
    · rw [if_pos (chains.length ▸ inside)] at atSlot
      rw [if_pos inside] at atTable
      cases atSlot
      cases atTable
      exact walk
    · rw [if_neg inside] at atTable
      cases atTable
  · rw [if_neg same] at atSlot atTable
    exact chains.chain at_ head' chain' atSlot atTable

theorem replicate (count : Nat) :
    Chains next (List.replicate count none) (List.replicate count ([] : List (HMapEntry K V))) := by
  refine ⟨by rw [List.length_replicate, List.length_replicate], ?_⟩
  intro idx head chain atSlot atTable
  have headNone := List.eq_of_mem_replicate (List.mem_of_getElem? atSlot)
  have chainNil := List.eq_of_mem_replicate (List.mem_of_getElem? atTable)
  rw [headNone, chainNil]
  exact rfl

end Chains

/-! ## One bucket inside the table -/

section Bucket

variable {table : HMapTable K V} {idx : Nat} {chain other : List (HMapEntry K V)}

theorem mem_flatten_of_bucket (atTable : table[idx]? = some chain) {entry : HMapEntry K V}
    (member : entry ∈ chain) : entry ∈ table.flatten :=
  List.mem_flatten_of_mem (List.mem_of_getElem? atTable) member

theorem mem_flatten_iff {entry : HMapEntry K V} :
    entry ∈ table.flatten <-> exists (idx : Nat) (chain : List (HMapEntry K V)), table[idx]? = some chain ∧ entry ∈ chain := by
  constructor
  · intro member
    rcases List.mem_flatten.mp member with ⟨chain, inTable, inside⟩
    rcases List.mem_iff_getElem?.mp inTable with ⟨idx, atTable⟩
    exact ⟨idx, chain, atTable, inside⟩
  · rintro ⟨idx, chain, atTable, member⟩
    exact mem_flatten_of_bucket atTable member

/-- The entries, split around one bucket. -/
theorem flatten_split (atTable : table[idx]? = some chain) :
    table.flatten = (table.take idx).flatten ++ chain ++ (table.drop (idx + 1)).flatten := by
  rcases List.getElem?_eq_some_iff.mp atTable with ⟨inside, value⟩
  conv_lhs => rw [← List.take_append_drop idx table]
  rw [List.flatten_append, List.drop_eq_getElem_cons inside, value, List.flatten_cons,
    List.append_assoc]

theorem flatten_set (atTable : table[idx]? = some chain) :
    (table.set idx other).flatten =
      (table.take idx).flatten ++ other ++ (table.drop (idx + 1)).flatten := by
  rcases List.getElem?_eq_some_iff.mp atTable with ⟨inside, _⟩
  rw [List.set_eq_take_append_cons_drop, if_pos inside, List.flatten_append, List.flatten_cons,
    List.append_assoc]

/-- Exchanging a bucket exchanges its entries and keeps all others. -/
theorem flatten_set_perm (atTable : table[idx]? = some chain) (other : List (HMapEntry K V)) :
    exists rest, table.flatten.Perm (chain ++ rest) ∧
      (table.set idx other).flatten.Perm (other ++ rest) := by
  refine ⟨(table.take idx).flatten ++ (table.drop (idx + 1)).flatten, ?_, ?_⟩
  · rw [flatten_split atTable, List.append_assoc]
    exact List.perm_append_comm_assoc _ _ _
  · rw [flatten_set atTable, List.append_assoc]
    exact List.perm_append_comm_assoc _ _ _

theorem getElem?_set_cases {at_ : Nat} {found : List (HMapEntry K V)}
    (atTable : (table.set idx other)[at_]? = some found) :
    (at_ = idx ∧ found = other) ∨ (at_ ≠ idx ∧ table[at_]? = some found) := by
  rw [List.getElem?_set] at atTable
  by_cases same : idx = at_
  · rw [if_pos same] at atTable
    split at atTable
    · cases atTable
      exact Or.inl ⟨same.symm, rfl⟩
    · cases atTable
  · rw [if_neg same] at atTable
    exact Or.inr ⟨fun equal => same equal.symm, atTable⟩

end Bucket

end HMap
end TerseDsa
