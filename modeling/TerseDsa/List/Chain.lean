import TerseDsa.Foundation.Chains
import TerseDsa.List.Model

namespace TerseDsa

open Foundation Run
open Function (update update_self update_of_ne update_eq_self)

/-!
# The chain a list stands for

A list stands for the sequence of its nodes: their identities, which are their
addresses, each with its elem.  `TdaList.Holds` says that memory holds the
list over such a sequence; `TdaList.Wired` is a step that only bends links,
told by the two link functions it leaves.
-/

namespace TdaList

variable {α C S : Type} {heap : ListMem α} {self after : TdaList} {tag : AlTag}
  {nodes left right : List (Addr × α)} {entry : Addr × α} {addr : Addr} {val : α}

/-- The identities of nodes. -/
def addrs (nodes : List (Addr × α)) : List Addr := nodes.map Prod.fst

/-- The elems of nodes. -/
def elems (nodes : List (Addr × α)) : List α := nodes.map Prod.snd

@[simp] theorem addrs_nil : addrs ([] : List (Addr × α)) = [] := rfl

@[simp] theorem addrs_cons : addrs (entry :: nodes) = entry.1 :: addrs nodes := rfl

@[simp] theorem addrs_append : addrs (left ++ right) = addrs left ++ addrs right :=
  List.map_append

theorem mem_addrs : addr ∈ addrs nodes <-> exists entry, entry ∈ nodes ∧ entry.1 = addr :=
  List.mem_map

theorem addrs_perm (perm : left.Perm right) : (addrs left).Perm (addrs right) := perm.map Prod.fst

theorem addr_mem (inside : entry ∈ nodes) : entry.1 ∈ addrs nodes :=
  List.mem_map_of_mem inside

/-! ## Links and nodes in memory -/

/-- The `next` link of a node. -/
def nextLink (blocks : Blocks AlTag (ListNode α)) (node : Addr) : Option Addr :=
  (blocks node).bind fun block => block.cell.next

/-- The `prev` link of a node. -/
def prevLink (blocks : Blocks AlTag (ListNode α)) (node : Addr) : Option Addr :=
  (blocks node).bind fun block => block.cell.prev

/-- A node with its elem, whatever its links are. -/
def NodeAt (blocks : Blocks AlTag (ListNode α)) (tag : AlTag) (node : Addr × α) : Prop :=
  exists next prev, blocks node.1 = some ⟨tag, ⟨next, prev, node.2⟩⟩

theorem NodeAt.here {blocks : Blocks AlTag (ListNode α)} (at_ : NodeAt blocks tag entry) :
    blocks entry.1 =
      some ⟨tag, ⟨nextLink blocks entry.1, prevLink blocks entry.1, entry.2⟩⟩ := by
  rcases at_ with ⟨next, prev, here⟩
  simp only [nextLink, prevLink, here, Option.bind_some]

theorem NodeAt.live {blocks : Blocks AlTag (ListNode α)} (at_ : NodeAt blocks tag entry) :
    blocks entry.1 ≠ none := by
  rw [at_.here]
  exact Option.some_ne_none _

theorem NodeAt.congr {blocks other : Blocks AlTag (ListNode α)} (at_ : NodeAt blocks tag entry)
    (same : other entry.1 = blocks entry.1) : NodeAt other tag entry := by
  rcases at_ with ⟨next, prev, here⟩
  exact ⟨next, prev, same.trans here⟩

theorem nextLink_congr {blocks other : Blocks AlTag (ListNode α)} (same : other addr = blocks addr) :
    nextLink other addr = nextLink blocks addr := by
  unfold nextLink
  rw [same]

theorem prevLink_congr {blocks other : Blocks AlTag (ListNode α)} (same : other addr = blocks addr) :
    prevLink other addr = prevLink blocks addr := by
  unfold prevLink
  rw [same]

/-- The links of the nodes `within` were bent, and are `next` and `prev` now. -/
structure Wired (blocks later : Blocks AlTag (ListNode α)) (within : List Addr)
    (next prev : Addr -> Option Addr) : Prop where
  outside : forall addr, addr ∉ within -> later addr = blocks addr
  node : forall {tag : AlTag} {entry : Addr × α}, NodeAt blocks tag entry -> NodeAt later tag entry
  next_eq : nextLink later = next
  prev_eq : prevLink later = prev

namespace Wired

variable {blocks later last : Blocks AlTag (ListNode α)} {within wider : List Addr}
  {next prev next' prev' : Addr -> Option Addr}

theorem refl (blocks : Blocks AlTag (ListNode α)) (within : List Addr) :
    Wired blocks blocks within (nextLink blocks) (prevLink blocks) :=
  ⟨fun _ _ => rfl, id, rfl, rfl⟩

theorem trans (first : Wired blocks later within next prev)
    (second : Wired later last within next' prev') : Wired blocks last within next' prev' :=
  ⟨fun addr outside => (second.outside addr outside).trans (first.outside addr outside),
    fun at_ => second.node (first.node at_), second.next_eq, second.prev_eq⟩

theorem mono (wired : Wired blocks later within next prev)
    (wide : forall addr, addr ∈ within -> addr ∈ wider) : Wired blocks later wider next prev :=
  ⟨fun addr outside => wired.outside addr fun inside => outside (wide addr inside), wired.node,
    wired.next_eq, wired.prev_eq⟩

end Wired

/-- Only links of these nodes have changed. -/
structure Rewired (blocks later : Blocks AlTag (ListNode α)) (within : List Addr) : Prop where
  outside : forall addr, addr ∉ within -> later addr = blocks addr
  node : forall {tag : AlTag} {entry : Addr × α}, NodeAt blocks tag entry -> NodeAt later tag entry

namespace Rewired

variable {blocks later last : Blocks AlTag (ListNode α)} {within wider : List Addr}

theorem refl (blocks : Blocks AlTag (ListNode α)) (within : List Addr) : Rewired blocks blocks within :=
  ⟨fun _ _ => rfl, id⟩

theorem trans (first : Rewired blocks later within) (second : Rewired later last within) :
    Rewired blocks last within :=
  ⟨fun addr away => (second.outside addr away).trans (first.outside addr away), fun at_ => second.node (first.node at_)⟩

theorem mono (rewired : Rewired blocks later within) (wide : forall addr, addr ∈ within -> addr ∈ wider) :
    Rewired blocks later wider :=
  ⟨fun addr away => rewired.outside addr fun inside => away (wide addr inside), rewired.node⟩

end Rewired

theorem Wired.rewired {blocks later : Blocks AlTag (ListNode α)} {within : List Addr} {next prev : Addr -> Option Addr} (wired : Wired blocks later within next prev) :
    Rewired blocks later within :=
  ⟨wired.outside, wired.node⟩

/-- Only links of the nodes of a list were written, and these are in another order. -/
theorem Rewired.evolves {blocks later : Blocks AlTag (ListNode α)} {merged : List (Addr × α)}
    (rewired : Rewired blocks later (addrs nodes)) (perm : merged.Perm nodes) :
    Evolves blocks later (addrs nodes) (addrs merged) :=
  (Evolves.of_within rewired.outside).congr (fun _ => Iff.rfl) fun _ => (addrs_perm perm).mem_iff

theorem ends_readNode (at_ : NodeAt heap.blocks tag (addr, val))
    {post : ListNode α -> ListMem α -> Prop} :
    Ends (readNode addr) heap post <->
      post ⟨nextLink heap.blocks addr, prevLink heap.blocks addr, val⟩ heap := by
  unfold readNode
  rw [Heap.ends_read at_.here]

theorem Wired.of_write {blocks : Blocks AlTag (ListNode α)} (at_ : NodeAt blocks tag entry)
    (next prev : Option Addr) :
    Wired blocks (update blocks entry.1 (some ⟨tag, ⟨next, prev, entry.2⟩⟩)) [entry.1]
      (update (nextLink blocks) entry.1 next)
      (update (prevLink blocks) entry.1 prev) := by
  constructor
  · intro addr outside
    exact update_of_ne (fun same => outside (List.mem_singleton.mpr same)) _ _
  · intro other node there
    by_cases same : node.1 = entry.1
    · rcases there with ⟨next', prev', here⟩
      have equal := here.symm.trans (same ▸ at_.here)
      cases node with
      | mk nodeAddr nodeVal =>
          cases same
          cases equal
          exact ⟨next, prev, update_self _ _ _⟩
    · exact there.congr (update_of_ne same _ _)
  · funext addr
    by_cases same : addr = entry.1
    · subst same
      simp only [nextLink, update_self, Option.bind_some]
    · simp only [nextLink, update_of_ne same]
  · funext addr
    by_cases same : addr = entry.1
    · subst same
      simp only [prevLink, update_self, Option.bind_some]
    · simp only [prevLink, update_of_ne same]

theorem ends_setNext (at_ : NodeAt heap.blocks tag (addr, val)) {target : Option Addr}
    {post : Unit -> ListMem α -> Prop}
    (holds : forall later : ListMem α, Wired heap.blocks later.blocks [addr]
      (update (nextLink heap.blocks) addr target) (prevLink heap.blocks) ->
      post () later) :
    Ends (setNext α addr target) heap post := by
  simp only [setNext, ends_bind, ends_readNode at_, Heap.ends_write at_.here]
  apply holds
  have wired := Wired.of_write at_ target (prevLink heap.blocks addr)
  rw [update_eq_self] at wired
  exact wired

theorem ends_setPrev (at_ : NodeAt heap.blocks tag (addr, val)) {target : Option Addr}
    {post : Unit -> ListMem α -> Prop}
    (holds : forall later : ListMem α, Wired heap.blocks later.blocks [addr]
      (nextLink heap.blocks) (update (prevLink heap.blocks) addr target) ->
      post () later) :
    Ends (setPrev α addr target) heap post := by
  simp only [setPrev, ends_bind, ends_readNode at_, Heap.ends_write at_.here]
  apply holds
  have wired := Wired.of_write at_ (nextLink heap.blocks addr) target
  rw [update_eq_self] at wired
  exact wired

/-! ## Lists in memory -/

/-- The tag of a list's nodes. -/
def nodeTag (self : TdaList) : AlTag := (self.al, (ckdNodeLayout self.elem).getD ⟨0, 0⟩)

/-- Memory holds the list over these nodes. -/
structure Holds (blocks : Blocks AlTag (ListNode α)) (list : TdaList) (nodes : List (Addr × α)) :
    Prop where
  real : list.al.isSome = true
  elem : list.elem.isType = true
  layout : (ckdNodeLayout list.elem).isSome = true
  stored : forall entry, entry ∈ nodes -> NodeAt blocks (nodeTag list) entry
  linked : Linked (nextLink blocks) (prevLink blocks) list.head list.tail (addrs nodes)
  len : list.len = nodes.length

/-- From one list to another on the same allocator. -/
structure Tends (blocks later : Blocks AlTag (ListNode α)) (list after : TdaList)
    (nodes changed : List (Addr × α)) : Prop where
  holds : Holds later after changed
  evolves : Evolves blocks later (addrs nodes) (addrs changed)
  elem : after.elem = list.elem
  al : after.al = list.al

theorem Tends.refl {blocks : Blocks AlTag (ListNode α)} (holds : Holds blocks self nodes) :
    Tends blocks blocks self self nodes nodes :=
  ⟨holds, Evolves.refl _ _, rfl, rfl⟩

theorem Tends.trans {blocks later last : Blocks AlTag (ListNode α)} {final : TdaList}
    {middle final_ : List (Addr × α)} (first : Tends blocks later self after nodes middle)
    (second : Tends later last after final middle final_) :
    Tends blocks last self final nodes final_ :=
  ⟨second.holds, first.evolves.trans second.evolves, second.elem.trans first.elem,
    second.al.trans first.al⟩

namespace Holds

theorem nodup (holds : Holds heap.blocks self nodes) : (addrs nodes).Nodup := holds.linked.nodup

theorem live (holds : Holds heap.blocks self nodes) (mine : addr ∈ addrs nodes) :
    heap.blocks addr ≠ none := by
  rcases mem_addrs.mp mine with ⟨entry, inside, rfl⟩
  exact (holds.stored entry inside).live

theorem congr {other : Blocks AlTag (ListNode α)} (holds : Holds heap.blocks self nodes)
    (agree : forall addr, addr ∈ addrs nodes -> other addr = heap.blocks addr) :
    Holds other self nodes := by
  refine ⟨holds.real, holds.elem, holds.layout, ?_, ?_, holds.len⟩
  · exact fun entry inside => (holds.stored entry inside).congr (agree _ (addr_mem inside))
  · exact holds.linked.congr fun node inside =>
      ⟨nextLink_congr (agree node inside), prevLink_congr (agree node inside)⟩

theorem asserts (holds : Holds heap.blocks self nodes) : self.Asserts := by
  have head := holds.linked.head_eq
  have tail := holds.linked.tail_eq
  have len := holds.len
  refine ⟨holds.elem, holds.real, ?_, ?_⟩
  · rw [head, len]
    cases nodes with
    | nil => simp
    | cons entry rest => simp
  · rw [head, tail]
    cases nodes with
    | nil => simp
    | cons entry rest => simp [List.getLast?_cons]

theorem empty {blocks : Blocks AlTag (ListNode α)} {list : TdaList} (real : list.al.isSome = true)
    (elem : list.elem.isType = true) (layout : (ckdNodeLayout list.elem).isSome = true)
    (head : list.head = none) (tail : list.tail = none) (len : list.len = 0) :
    Holds blocks list ([] : List (Addr × α)) := by
  refine ⟨real, elem, layout, ?_, ?_, len⟩
  · exact fun entry inside => absurd inside List.not_mem_nil
  · rw [head, tail]
    exact Linked.nil

end Holds

theorem ends_assertList (holds : self.Asserts) {s : S} {post : Unit -> S -> Prop} :
    Ends (assertList self) s post <-> post () s := by
  unfold assertList
  rw [ends_require]
  exact ⟨And.right, fun after => ⟨holds, after⟩⟩

end TdaList
end TerseDsa
