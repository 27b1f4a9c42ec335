import TerseDsa.Foundation.Bytes
import TerseDsa.Foundation.Links

namespace TerseDsa
namespace Foundation

/-!
# Lists threaded through memory

A free block holds the link to the next one in its own first bytes.  Pushing
and popping at the head rewrite one link, and whoever writes elsewhere leaves
the list as it is.
-/

variable {bytes later : Bytes} {addr node : Nat} {head target : Option Nat} {nodes rest : List Nat}

namespace Bytes

/-- The address that the link at `addr` holds; 0 is the null link. -/
def link (bytes : Bytes) (addr : Nat) : Option Nat :=
  if load bytes addr = 0 then none else some (load bytes addr)

/-- The memory after the link at `addr` was set. -/
def setLink (bytes : Bytes) (addr : Nat) (target : Option Nat) : Bytes :=
  store bytes addr (target.getD 0)

/-- An address that a link can hold. -/
def Linkable (addr : Nat) : Prop := 0 < addr ∧ addr < 2 ^ 64

theorem link_setLink (fits : forall node, target = some node -> Linkable node) :
    link (setLink bytes addr target) addr = target := by
  cases target with
  | none =>
      rw [link, setLink, load_store (by decide)]
      rfl
  | some node =>
      rcases fits node rfl with ⟨real, small⟩
      rw [link, setLink, Option.getD_some, load_store small]
      exact if_neg (Nat.ne_of_gt real)

theorem link_of_apart {region : Region} (keeps : Keeps bytes later region)
    (apart : Region.Apart ⟨addr, wordSize⟩ region) : link later addr = link bytes addr := by
  rw [link, link, load_of_apart keeps apart]

theorem keeps_setLink (bytes : Bytes) (addr : Nat) (target : Option Nat) :
    Keeps bytes (setLink bytes addr target) ⟨addr, wordSize⟩ := by
  rw [setLink, store]
  exact keeps_overwrite _ _ _

end Bytes

open Bytes

/-- From `head` on the links in memory pass the nodes in turn and end. -/
structure Threaded (bytes : Bytes) (head : Option Nat) (nodes : List Nat) : Prop where
  walk : Seg (link bytes) head nodes none
  linkable : forall node, node ∈ nodes -> Linkable node

namespace Threaded

theorem nil : Threaded bytes none [] :=
  ⟨rfl, fun _ inside => absurd inside List.not_mem_nil⟩

theorem nodup (threaded : Threaded bytes head nodes) : nodes.Nodup := threaded.walk.nodup

theorem head_eq (threaded : Threaded bytes head nodes) : head = nodes.head? := by
  rw [threaded.walk.start_eq, Option.or_none]

/-- The head, if there is one, is an address that a link can hold. -/
theorem linkable_head (threaded : Threaded bytes head nodes) : forall node, head = some node ->
    Linkable node := by
  intro node at_
  rw [threaded.head_eq] at at_
  exact threaded.linkable node (List.mem_of_mem_head? at_)

/-- Memory was written where no link of the list is. -/
theorem frame {region : Region} (threaded : Threaded bytes head nodes)
    (keeps : Keeps bytes later region)
    (apart : forall node, node ∈ nodes -> Region.Apart ⟨node, wordSize⟩ region) :
    Threaded later head nodes :=
  ⟨threaded.walk.congr fun node inside => link_of_apart keeps (apart node inside), threaded.linkable⟩

theorem push (threaded : Threaded bytes head nodes) (real : Linkable addr)
    (apart : forall node, node ∈ nodes -> Region.Apart ⟨node, wordSize⟩ ⟨addr, wordSize⟩) :
    Threaded (setLink bytes addr head) (some addr) (addr :: nodes) := by
  refine ⟨⟨rfl, ?_⟩, ?_⟩
  · rw [link_setLink threaded.linkable_head]
    exact (threaded.frame (keeps_setLink bytes addr head) apart).walk
  · intro node inside
    rcases List.mem_cons.mp inside with rfl | before
    · exact real
    · exact threaded.linkable node before

theorem pop (threaded : Threaded bytes head (node :: rest)) :
    Threaded bytes (link bytes node) rest :=
  ⟨threaded.walk.2, fun other inside => threaded.linkable other (List.mem_cons_of_mem node inside)⟩

end Threaded

/-! ## Blocks that tile a region -/

/-- The starts of `count` blocks of one size, back to back. -/
def starts (data size count : Nat) : List Nat := (List.range count).map fun idx => data + idx * size

section Starts

variable {data size count idx other : Nat}

theorem mem_starts : addr ∈ starts data size count <-> exists idx, idx < count ∧ addr = data + idx * size := by
  unfold starts
  simp only [List.mem_map, List.mem_range]
  constructor
  · rintro ⟨idx, inside, same⟩
    exact ⟨idx, inside, same.symm⟩
  · rintro ⟨idx, inside, same⟩
    exact ⟨idx, inside, same.symm⟩

/-- One block ends where the next one starts, or before. -/
theorem starts_step (before : idx < other) : idx * size + size ≤ other * size := by
  have step := Nat.mul_le_mul_right size before
  rw [Nat.succ_mul] at step
  exact step

theorem starts_apart {left right : Nat} (leftIn : left ∈ starts data size count)
    (rightIn : right ∈ starts data size count) (different : left ≠ right) :
    Region.Apart ⟨left, size⟩ ⟨right, size⟩ := by
  rcases mem_starts.mp leftIn with ⟨first, _, rfl⟩
  rcases mem_starts.mp rightIn with ⟨second, _, rfl⟩
  unfold Region.Apart Region.stop
  dsimp only
  rcases Nat.lt_trichotomy first second with before | same | after
  · have step : first * size + size ≤ second * size := starts_step before
    omega
  · exact absurd (by rw [same]) different
  · have step : second * size + size ≤ first * size := starts_step after
    omega

theorem starts_within (inside : addr ∈ starts data size count) :
    Region.Within ⟨addr, size⟩ ⟨data, size * count⟩ := by
  rcases mem_starts.mp inside with ⟨idx, below, rfl⟩
  have step : idx * size + size ≤ count * size := starts_step below
  rw [Nat.mul_comm count] at step
  unfold Region.Within Region.stop
  dsimp only
  omega

theorem nodup_starts (some_ : 0 < size) : (starts data size count).Nodup := by
  refine List.Nodup.map_on ?_ List.nodup_range
  intro left _ right _ same
  exact Nat.eq_of_mul_eq_mul_right some_ (Nat.add_left_cancel same)

end Starts
end Foundation
end TerseDsa
