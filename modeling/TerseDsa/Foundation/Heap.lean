import TerseDsa.Foundation.Run
import Mathlib.Data.List.Basic
import Mathlib.Logic.Equiv.Basic
import Mathlib.Tactic.Common

namespace TerseDsa
namespace Foundation

open Run
open Function (update update_self update_of_ne)

/-!
# A heap of blocks behind an allocation oracle

A block is handed out under a tag and must be given back under the same tag.
What the allocator answers is not computed: `answers` is an arbitrary script,
consulted once a request, so a statement about every heap is a statement about
every pattern of grants and refusals and every choice of addresses.  An
address that is still in use is not a fresh block; such an answer counts as a
refusal, and every script is then an honest allocator.

Reading, writing or releasing a block that is not there, and releasing one
under another tag than its own, goes wrong.  A run that ends therefore
releases only live blocks, each under its tag and none twice.

`Evolves` compares two heaps by what one owner held before and after.  It
composes along a run, and `Partition.evolve` turns it into a statement about
every owner of the heap at once.
-/

abbrev Addr := Nat

/-- A block: the tag it was requested under and what it holds. -/
structure Block (Tag Cell : Type) where
  tag : Tag
  cell : Cell

/-- The blocks that are live, by address. -/
abbrev Blocks (Tag Cell : Type) := Addr -> Option (Block Tag Cell)

/-- The live blocks, and the script of the requests still to be answered. -/
structure Heap (Tag Cell : Type) where
  blocks : Blocks Tag Cell
  answers : Nat -> Option Addr
  asked : Nat

namespace Heap

variable {Tag Cell : Type}

/-- The heap after a refusal: only the script has moved on. -/
def refuse (heap : Heap Tag Cell) : Heap Tag Cell :=
  { heap with asked := heap.asked + 1 }

/-- The heap after a block was handed out. -/
def grant (heap : Heap Tag Cell) (addr : Addr) (block : Block Tag Cell) : Heap Tag Cell :=
  { heap with
    blocks := update heap.blocks addr (some block)
    asked := heap.asked + 1 }

/-- The heap with the entry at one address replaced. -/
def put (heap : Heap Tag Cell) (addr : Addr) (entry : Option (Block Tag Cell)) :
    Heap Tag Cell :=
  { heap with blocks := update heap.blocks addr entry }

/-- What holds wherever nothing but the script has moved on. -/
abbrev Spared (heap : Heap Tag Cell) (post : Heap Tag Cell -> Prop) : Prop :=
  forall later : Heap Tag Cell, later.blocks = heap.blocks -> post later

theorem Spared.on {heap mid : Heap Tag Cell} {post : Heap Tag Cell -> Prop} (spared : heap.Spared post)
    (same : mid.blocks = heap.blocks) : mid.Spared post :=
  fun later kept => spared later (kept.trans same)

@[simp] theorem grant_blocks (heap : Heap Tag Cell) (addr : Addr) (block : Block Tag Cell) :
    (heap.grant addr block).blocks = update heap.blocks addr (some block) := rfl

@[simp] theorem put_blocks (heap : Heap Tag Cell) (addr : Addr)
    (entry : Option (Block Tag Cell)) :
    (heap.put addr entry).blocks = update heap.blocks addr entry := rfl

/-- Ask for a block.  The null address is a refusal. -/
def request (tag : Tag) (cell : Cell) : Run (Heap Tag Cell) (Option Addr) := do
  let heap ← get
  match heap.answers heap.asked with
  | none =>
      set heap.refuse
      return none
  | some addr =>
      match heap.blocks addr with
      | some _ =>
          set heap.refuse
          return none
      | none =>
          set (heap.grant addr ⟨tag, cell⟩)
          return some addr

/-- Give a block back, under the tag it was requested under. -/
def release [DecidableEq Tag] (addr : Addr) (tag : Tag) : Run (Heap Tag Cell) Unit := do
  let heap ← get
  let block ← demand (heap.blocks addr)
  require (block.tag = tag)
  set (heap.put addr none)

/-- What a live block holds. -/
def read (addr : Addr) : Run (Heap Tag Cell) Cell := do
  let heap ← get
  let block ← demand (heap.blocks addr)
  return block.cell

/-- Overwrite what a live block holds. -/
def write (addr : Addr) (cell : Cell) : Run (Heap Tag Cell) Unit := do
  let heap ← get
  let block ← demand (heap.blocks addr)
  set (heap.put addr (some { block with cell := cell }))

/-- Ask for a block to become another where it is; `cut` says what it holds then.
The answer grants this by naming the block. -/
def resize [DecidableEq Tag] (addr : Addr) (tag later : Tag) (cut : Cell -> Cell) :
    Run (Heap Tag Cell) Bool := do
  let heap ← get
  let block ← demand (heap.blocks addr)
  require (block.tag = tag)
  if heap.answers heap.asked = some addr then
    set (heap.grant addr ⟨later, cut block.cell⟩)
    return true
  set heap.refuse
  return false

/-- Ask for a block to be moved, to where it is or to a free address. -/
def remap [DecidableEq Tag] (addr : Addr) (tag later : Tag) (cut : Cell -> Cell) :
    Run (Heap Tag Cell) (Option Addr) := do
  let heap ← get
  let block ← demand (heap.blocks addr)
  require (block.tag = tag)
  match heap.answers heap.asked with
  | none =>
      set heap.refuse
      return none
  | some other =>
      if other = addr ∨ (heap.blocks other).isNone then
        set ((heap.put addr none).grant other ⟨later, cut block.cell⟩)
        return some other
      set heap.refuse
      return none

section Rules

variable {heap : Heap Tag Cell} {addr : Addr} {block : Block Tag Cell}

/-- The next request is granted. -/
def Grants (heap : Heap Tag Cell) : Prop :=
  exists addr, heap.answers heap.asked = some addr ∧ heap.blocks addr = none

/-- What comes of a request is settled by the next answer. -/
theorem ends_request_answered {tag : Tag} {cell : Cell} {post : Option Addr -> Heap Tag Cell -> Prop}
    (refused : ¬ heap.Grants -> post none heap.refuse)
    (granted : heap.Grants -> forall addr, heap.blocks addr = none ->
      post (some addr) (heap.grant addr ⟨tag, cell⟩)) :
    Ends (request tag cell) heap post := by
  unfold request
  simp only [ends_bind, Run.ends_get]
  cases answer : heap.answers heap.asked with
  | none =>
      have denied : ¬ heap.Grants := by
        rintro ⟨addr, answered, _⟩
        rw [answer] at answered
        cases answered
      simpa only [ends_bind, Run.ends_set, ends_pure] using refused denied
  | some addr =>
      cases free : heap.blocks addr with
      | none => simpa only [free, ends_bind, Run.ends_set, ends_pure] using granted ⟨addr, answer, free⟩ addr free
      | some inUse =>
          have denied : ¬ heap.Grants := by
            rintro ⟨other, answered, none_⟩
            rw [answer, Option.some_inj] at answered
            rw [← answered, free] at none_
            cases none_
          simpa only [free, ends_bind, Run.ends_set, ends_pure] using refused denied

theorem ends_release [DecidableEq Tag] {tag : Tag} (live : heap.blocks addr = some block)
    (own : block.tag = tag) {post : Unit -> Heap Tag Cell -> Prop} :
    Ends (release addr tag) heap post <-> post () (heap.put addr none) := by
  simp only [release, ends_bind, Run.ends_get, live, ends_demand_some, ends_require,
    own, true_and, Run.ends_set]

theorem ends_read (live : heap.blocks addr = some block)
    {post : Cell -> Heap Tag Cell -> Prop} :
    Ends (read addr) heap post <-> post block.cell heap := by
  simp only [read, ends_bind, Run.ends_get, live, ends_demand_some, ends_pure]

theorem ends_write {cell : Cell} (live : heap.blocks addr = some block)
    {post : Unit -> Heap Tag Cell -> Prop} :
    Ends (write addr cell) heap post <->
      post () (heap.put addr (some { block with cell := cell })) := by
  simp only [write, ends_bind, Run.ends_get, live, ends_demand_some, Run.ends_set]

/-- The block stays as it is, or it is another one at the same address. -/
theorem ends_resize [DecidableEq Tag] {tag later : Tag} {cut : Cell -> Cell}
    (live : heap.blocks addr = some block) (own : block.tag = tag) {post : Bool -> Heap Tag Cell -> Prop}
    (refused : post false heap.refuse) (granted : post true (heap.grant addr ⟨later, cut block.cell⟩)) :
    Ends (resize addr tag later cut) heap post := by
  simp only [resize, ends_bind, Run.ends_get, live, ends_demand_some, ends_require, own, true_and]
  by_cases answer : heap.answers heap.asked = some addr
  · simpa only [if_pos answer, ends_bind, Run.ends_set, ends_pure] using granted
  · simpa only [if_neg answer, ends_bind, Run.ends_set, ends_pure] using refused

/-- The block stays as it is, or it is gone and there is another one. -/
theorem ends_remap [DecidableEq Tag] {tag later : Tag} {cut : Cell -> Cell}
    (live : heap.blocks addr = some block) (own : block.tag = tag)
    {post : Option Addr -> Heap Tag Cell -> Prop} (refused : post none heap.refuse)
    (granted : forall other, other = addr ∨ heap.blocks other = none ->
      post (some other) ((heap.put addr none).grant other ⟨later, cut block.cell⟩)) :
    Ends (remap addr tag later cut) heap post := by
  simp only [remap, ends_bind, Run.ends_get, live, ends_demand_some, ends_require, own, true_and]
  cases answer : heap.answers heap.asked with
  | none => simpa only [ends_bind, Run.ends_set, ends_pure] using refused
  | some other =>
      by_cases free : other = addr ∨ (heap.blocks other).isNone = true
      · simpa only [if_pos free, ends_bind, Run.ends_set, ends_pure] using
          granted other (free.imp_right Option.isNone_iff_eq_none.mp)
      · simpa only [if_neg free, ends_bind, Run.ends_set, ends_pure] using refused

end Rules

/-! ## A heap that refuses nothing -/

/-- Each of the next so many requests is answered with an address of its own that is free. -/
structure Supplies (heap : Heap Tag Cell) (count : Nat) : Prop where
  answered : forall n, n < count -> exists addr, heap.answers (heap.asked + n) = some addr ∧ heap.blocks addr = none
  apart : forall m n addr, m < count -> n < count -> heap.answers (heap.asked + m) = some addr ->
    heap.answers (heap.asked + n) = some addr -> m = n

namespace Supplies

variable {heap : Heap Tag Cell} {addr : Addr} {count : Nat}

theorem zero (heap : Heap Tag Cell) : heap.Supplies 0 :=
  ⟨fun n below => absurd below (Nat.not_lt_zero n), fun m _ _ below => absurd below (Nat.not_lt_zero m)⟩

/-- Where more is granted, the next request is. -/
theorem grants (supplies : heap.Supplies (count + 1)) : heap.Grants :=
  supplies.answered 0 (Nat.succ_pos count)

theorem mono {fewer : Nat} (supplies : heap.Supplies count) (less : fewer ≤ count) : heap.Supplies fewer :=
  ⟨fun n below => supplies.answered n (Nat.lt_of_lt_of_le below less),
    fun m n addr first second =>
      supplies.apart m n addr (Nat.lt_of_lt_of_le first less) (Nat.lt_of_lt_of_le second less)⟩

theorem first (supplies : heap.Supplies (count + 1)) : heap.Supplies 1 := supplies.mono (Nat.le_add_left 1 count)

/-- Where the live blocks were live before, as much is free. -/
theorem put (supplies : heap.Supplies count) {entry : Option (Block Tag Cell)}
    (live : heap.blocks addr ≠ none) : (heap.put addr entry).Supplies count := by
  refine ⟨fun n below => ?_, supplies.apart⟩
  rcases supplies.answered n below with ⟨other, answer, free⟩
  refine ⟨other, answer, ?_⟩
  rw [put_blocks, update_of_ne, free]
  rintro rfl
  exact live free

/-- The address that was handed out is not answered again. -/
theorem grant (supplies : heap.Supplies (count + 1)) {block : Block Tag Cell}
    (answer : heap.answers heap.asked = some addr) : (heap.grant addr block).Supplies count := by
  have next : forall n, heap.asked + 1 + n = heap.asked + (n + 1) := fun n => by omega
  constructor
  · intro n below
    rcases supplies.answered (n + 1) (Nat.succ_lt_succ below) with ⟨other, answers, free⟩
    refine ⟨other, (congrArg heap.answers (next n)).trans answers, ?_⟩
    rw [grant_blocks, update_of_ne, free]
    rintro rfl
    cases supplies.apart 0 (n + 1) other (Nat.succ_pos count) (Nat.succ_lt_succ below) answer answers
  · intro m n other first second answer answers
    refine Nat.succ.inj (supplies.apart (m + 1) (n + 1) other (Nat.succ_lt_succ first) (Nat.succ_lt_succ second) ?_ ?_)
    · exact (congrArg heap.answers (next m)).symm.trans answer
    · exact (congrArg heap.answers (next n)).symm.trans answers

theorem keeps_read : Run.Keeps (fun heap => heap.Supplies count) (read addr : Run (Heap Tag Cell) Cell) := by
  intro heap supplies a later ran
  have ends : Ends (read addr) heap fun b t => b = a ∧ t = later := ⟨a, later, ran, rfl, rfl⟩
  cases live : heap.blocks addr with
  | none => simp [read, live, demand] at ends
  | some block =>
      rw [ends_read live] at ends
      exact ends.2 ▸ supplies

theorem keeps_write {cell : Cell} :
    Run.Keeps (fun heap => heap.Supplies count) (write addr cell : Run (Heap Tag Cell) Unit) := by
  intro heap supplies a later ran
  have ends : Ends (write addr cell) heap fun b t => b = a ∧ t = later := ⟨a, later, ran, rfl, rfl⟩
  cases live : heap.blocks addr with
  | none => simp [write, live, demand] at ends
  | some block =>
      rw [ends_write live] at ends
      rw [← ends.2]
      exact supplies.put (live ▸ Option.some_ne_none block)

theorem keeps_release [DecidableEq Tag] {tag : Tag} :
    Run.Keeps (fun heap => heap.Supplies count) (release addr tag : Run (Heap Tag Cell) Unit) := by
  intro heap supplies a later ran
  have ends : Ends (release addr tag) heap fun b t => b = a ∧ t = later := ⟨a, later, ran, rfl, rfl⟩
  cases live : heap.blocks addr with
  | none => simp [release, live, demand] at ends
  | some block =>
      simp only [release, ends_bind, Run.ends_get, live, ends_demand_some, ends_require,
        Run.ends_set] at ends
      rw [← ends.2.2]
      exact supplies.put (live ▸ Option.some_ne_none block)

/-- A request is granted, and one less is granted from there on. -/
theorem allows_request (supplies : heap.Supplies (count + 1)) {tag : Tag} {cell : Cell} :
    Allows (request tag cell) heap fun addr later => addr.isSome = true ∧ later.Supplies count := by
  rcases supplies.grants with ⟨addr, answer, free⟩
  refine Ends.allows ?_
  simp only [request, ends_bind, Run.ends_get, answer, free, Run.ends_set, ends_pure]
  exact ⟨rfl, supplies.grant answer⟩

end Supplies

/-- Every request still to come is answered with an address of its own that is free. -/
structure Generous (heap : Heap Tag Cell) : Prop where
  answered : forall n, heap.asked ≤ n ->
    exists addr, heap.answers n = some addr ∧ heap.blocks addr = none
  apart : forall m n addr, heap.asked ≤ m -> heap.asked ≤ n ->
    heap.answers m = some addr -> heap.answers n = some addr -> m = n

namespace Generous

variable {heap : Heap Tag Cell} {addr : Addr}

/-- However many requests there will be, they are granted. -/
theorem iff_supplies : heap.Generous <-> forall count, heap.Supplies count := by
  constructor
  · intro generous count
    refine ⟨fun n _ => generous.answered _ (Nat.le_add_right _ _), fun m n other _ _ first second => ?_⟩
    exact Nat.add_left_cancel (generous.apart _ _ other (Nat.le_add_right _ _) (Nat.le_add_right _ _) first second)
  · intro supplies
    constructor
    · intro n later
      rcases Nat.exists_eq_add_of_le later with ⟨k, rfl⟩
      exact (supplies (k + 1)).answered k (Nat.lt_succ_self k)
    · intro m n other first second answer answers
      rcases Nat.exists_eq_add_of_le first with ⟨k, rfl⟩
      rcases Nat.exists_eq_add_of_le second with ⟨l, rfl⟩
      exact congrArg _ ((supplies (k + l + 1)).apart k l other (by omega) (by omega) answer answers)

/-- What keeps any number of requests granted keeps all of them granted. -/
theorem keeps {α : Type} {run : Run (Heap Tag Cell) α} (each : forall count, Run.Keeps (fun heap => heap.Supplies count) run) :
    Run.Keeps Generous run := by
  intro heap generous a later ran
  rw [iff_supplies] at generous ⊢
  exact fun count => each count heap (generous count) a later ran

theorem keeps_read : Run.Keeps Generous (read addr : Run (Heap Tag Cell) Cell) :=
  keeps fun _ => Supplies.keeps_read

theorem keeps_write {cell : Cell} : Run.Keeps Generous (write addr cell : Run (Heap Tag Cell) Unit) :=
  keeps fun _ => Supplies.keeps_write

theorem keeps_release [DecidableEq Tag] {tag : Tag} :
    Run.Keeps Generous (release addr tag : Run (Heap Tag Cell) Unit) :=
  keeps fun _ => Supplies.keeps_release

theorem allows_request (generous : heap.Generous) {tag : Tag} {cell : Cell} :
    Allows (request tag cell) heap fun addr later => addr.isSome = true ∧ later.Generous := by
  intro addr later ran
  rw [iff_supplies] at generous ⊢
  refine ⟨((generous 1).allows_request addr later ran).1, fun count => ?_⟩
  exact ((generous (count + 1)).allows_request addr later ran).2

end Generous

end Heap

/-! ## What one owner did to the heap -/

variable {Tag Cell : Type} {first second third : Blocks Tag Cell}
  {before middle after : List Addr}

/-- From `first` to `second` an owner of the blocks `before` came to own the
blocks `after`: nothing else has changed, what is new was free, and what is
no longer owned has been given back. -/
structure Evolves (first second : Blocks Tag Cell) (before after : List Addr) : Prop where
  outside : forall addr, addr ∉ before -> addr ∉ after -> second addr = first addr
  fresh : forall addr, addr ∈ after -> addr ∉ before -> first addr = none
  released : forall addr, addr ∈ before -> addr ∉ after -> second addr = none

namespace Evolves

theorem refl (blocks : Blocks Tag Cell) (owned : List Addr) :
    Evolves blocks blocks owned owned :=
  ⟨fun _ _ _ => rfl, fun _ inside outside => absurd inside outside,
    fun _ inside outside => absurd inside outside⟩

theorem trans (left : Evolves first second before middle)
    (right : Evolves second third middle after) : Evolves first third before after := by
  constructor
  · intro addr notBefore notAfter
    by_cases inside : addr ∈ middle
    · rw [right.released addr inside notAfter, left.fresh addr inside notBefore]
    · rw [right.outside addr inside notAfter, left.outside addr notBefore inside]
  · intro addr inAfter notBefore
    by_cases inside : addr ∈ middle
    · exact left.fresh addr inside notBefore
    · rw [← left.outside addr notBefore inside]
      exact right.fresh addr inAfter inside
  · intro addr inBefore notAfter
    by_cases inside : addr ∈ middle
    · exact right.released addr inside notAfter
    · rw [right.outside addr inside notAfter]
      exact left.released addr inBefore inside

/-- Only which addresses are owned matters, not in which order. -/
theorem congr {before' after' : List Addr} (evolves : Evolves first second before after)
    (sameBefore : forall addr, addr ∈ before' <-> addr ∈ before)
    (sameAfter : forall addr, addr ∈ after' <-> addr ∈ after) :
    Evolves first second before' after' := by
  constructor
  · intro addr notBefore notAfter
    rw [sameBefore] at notBefore
    rw [sameAfter] at notAfter
    exact evolves.outside addr notBefore notAfter
  · intro addr inAfter notBefore
    rw [sameBefore] at notBefore
    rw [sameAfter] at inAfter
    exact evolves.fresh addr inAfter notBefore
  · intro addr inBefore notAfter
    rw [sameBefore] at inBefore
    rw [sameAfter] at notAfter
    exact evolves.released addr inBefore notAfter

theorem of_write {addr : Addr} {entry : Option (Block Tag Cell)} {owned : List Addr}
    (inside : addr ∈ owned) :
    Evolves first (update first addr entry) owned owned := by
  refine ⟨?_, fun _ here there => absurd here there, fun _ here there => absurd here there⟩
  intro other outside _
  exact update_of_ne (by rintro rfl; exact outside inside) _ _

theorem of_within {owned : List Addr}
    (agree : forall addr, addr ∉ owned -> second addr = first addr) :
    Evolves first second owned owned :=
  ⟨fun addr outside _ => agree addr outside, fun _ here there => absurd here there,
    fun _ here there => absurd here there⟩

theorem of_grant {addr : Addr} {block : Block Tag Cell} (free : first addr = none)
    (same : forall other, other ∈ after <-> other = addr ∨ other ∈ before) :
    Evolves first (update first addr (some block)) before after := by
  constructor
  · intro other _ notAfter
    rw [same] at notAfter
    exact update_of_ne (fun equal => notAfter (Or.inl equal)) _ _
  · intro other inAfter notBefore
    rcases (same other).mp inAfter with equal | inside
    · exact equal ▸ free
    · exact absurd inside notBefore
  · intro other inBefore notAfter
    exact absurd ((same other).mpr (Or.inr inBefore)) notAfter

theorem of_release {addr : Addr} (inside : addr ∈ before)
    (same : forall other, other ∈ after <-> other ≠ addr ∧ other ∈ before) :
    Evolves first (update first addr none) before after := by
  constructor
  · intro other notBefore _
    exact update_of_ne (by rintro rfl; exact notBefore inside) _ _
  · intro other inAfter notBefore
    exact absurd ((same other).mp inAfter).2 notBefore
  · intro other inBefore notAfter
    by_cases equal : other = addr
    · rw [equal, update_self]
    · exact absurd ((same other).mpr ⟨equal, inBefore⟩) notAfter

/-- An owned block was moved, to where it was or to a free address. -/
theorem of_move {addr other : Addr} {block : Block Tag Cell} (free : other = addr ∨ first other = none) :
    Evolves first (update (update first addr none) other (some block)) [addr] [other] := by
  constructor
  · intro place notBefore notAfter
    rw [List.mem_singleton] at notBefore notAfter
    rw [update_of_ne notAfter, update_of_ne notBefore]
  · intro place inAfter notBefore
    rw [List.mem_singleton] at inAfter notBefore
    subst inAfter
    exact free.resolve_left notBefore
  · intro place inBefore notAfter
    rw [List.mem_singleton] at inBefore notAfter
    rw [update_of_ne notAfter, inBefore, update_self]

/-- Blocks kept by the owner through the change can be counted on both sides. -/
theorem frame (evolves : Evolves first second before after) (kept : List Addr) :
    Evolves first second (before ++ kept) (after ++ kept) := by
  constructor
  · intro addr notBefore notAfter
    rw [List.mem_append, not_or] at notBefore notAfter
    exact evolves.outside addr notBefore.1 notAfter.1
  · intro addr inAfter notBefore
    rw [List.mem_append, not_or] at notBefore
    rcases List.mem_append.mp inAfter with inside | keptToo
    · exact evolves.fresh addr inside notBefore.1
    · exact absurd keptToo notBefore.2
  · intro addr inBefore notAfter
    rw [List.mem_append, not_or] at notAfter
    rcases List.mem_append.mp inBefore with inside | keptToo
    · exact evolves.released addr inside notAfter.1
    · exact absurd keptToo notAfter.2

/-- A new possession is made before the old one is given up. -/
theorem replace (made : Evolves first second [] after)
    (gone : Evolves second third before []) : Evolves first third before after :=
  ((made.frame before).trans ((gone.frame after).congr
    (fun addr => by rw [List.mem_append, List.mem_append, or_comm]) fun _ => Iff.rfl)).congr
    (fun _ => Iff.rfl) fun _ => Iff.rfl

/-- What others held before is theirs still. -/
theorem keeps (evolves : Evolves first second before after) {addr : Addr}
    (notBefore : addr ∉ before) (live : first addr ≠ none) : second addr = first addr :=
  evolves.outside addr notBefore fun inAfter => live (evolves.fresh addr inAfter notBefore)

/-- Owning nothing before and after, the owner has changed nothing. -/
theorem eq_of_nil (evolves : Evolves first second [] []) : second = first :=
  funext fun addr => evolves.outside addr List.not_mem_nil List.not_mem_nil

end Evolves

/-! ## A heap divided among owners -/

/-- Every live block has exactly one owner, and owners own only live blocks. -/
structure Partition {Owner : Type} (blocks : Blocks Tag Cell) (owned : Owner -> List Addr) :
    Prop where
  live : forall owner addr, addr ∈ owned owner -> blocks addr ≠ none
  covered : forall addr, blocks addr ≠ none -> exists owner, addr ∈ owned owner
  apart : forall owner other addr, addr ∈ owned owner -> addr ∈ owned other -> owner = other

namespace Partition

variable {Owner : Type} {owned : Owner -> List Addr}

/-- Nobody else's blocks are touched by what one owner does. -/
theorem untouched {owner other : Owner} (division : Partition first owned)
    (evolves : Evolves first second (owned owner) after) (different : other ≠ owner)
    {addr : Addr} (inside : addr ∈ owned other) : second addr = first addr := by
  have notBefore : addr ∉ owned owner :=
    fun also => different (division.apart other owner addr inside also)
  have notAfter : addr ∉ after :=
    fun also => division.live other addr inside (evolves.fresh addr also notBefore)
  exact evolves.outside addr notBefore notAfter

/-- The heap stays divided when one owner acts on its own part. -/
theorem evolve [DecidableEq Owner] {owner : Owner} (division : Partition first owned)
    (evolves : Evolves first second (owned owner) after)
    (live : forall addr, addr ∈ after -> second addr ≠ none) :
    Partition second (update owned owner after) := by
  constructor
  · intro other addr inside
    by_cases same : other = owner
    · rw [same, update_self] at inside
      exact live addr inside
    · rw [update_of_ne same] at inside
      rw [division.untouched evolves same inside]
      exact division.live other addr inside
  · intro addr alive
    by_cases mine : addr ∈ after
    · exact ⟨owner, by rw [update_self]; exact mine⟩
    · have notBefore : addr ∉ owned owner :=
        fun inside => alive (evolves.released addr inside mine)
      rw [evolves.outside addr notBefore mine] at alive
      rcases division.covered addr alive with ⟨other, inside⟩
      have different : other ≠ owner := by
        rintro rfl
        exact notBefore inside
      exact ⟨other, by rw [update_of_ne different]; exact inside⟩
  · intro left right addr inLeft inRight
    have separate : forall other, other ≠ owner -> addr ∈ owned other -> addr ∉ after := by
      intro other different inside also
      have notBefore : addr ∉ owned owner :=
        fun before => different (division.apart other owner addr inside before)
      exact division.live other addr inside (evolves.fresh addr also notBefore)
    by_cases sameLeft : left = owner <;> by_cases sameRight : right = owner
    · exact sameLeft.trans sameRight.symm
    · rw [sameLeft, update_self] at inLeft
      rw [update_of_ne sameRight] at inRight
      exact absurd inLeft (separate right sameRight inRight)
    · rw [sameRight, update_self] at inRight
      rw [update_of_ne sameLeft] at inLeft
      exact absurd inRight (separate left sameLeft inLeft)
    · rw [update_of_ne sameLeft] at inLeft
      rw [update_of_ne sameRight] at inRight
      exact division.apart left right addr inLeft inRight

/-- The heap stays divided when two owners act on what they own together. -/
theorem evolve_pair [DecidableEq Owner] {owner other : Owner} {afterOther : List Addr} (division : Partition first owned)
    (evolves : Evolves first second (owned owner ++ owned other) (after ++ afterOther))
    (live : forall addr, addr ∈ after ++ afterOther -> second addr ≠ none) (separate : after.Disjoint afterOther)
    (different : owner ≠ other) :
    Partition second (update (update owned owner after) other afterOther) := by
  have mem_iff : forall {who addr}, addr ∈ update (update owned owner after) other afterOther who <->
      (who = owner ∧ addr ∈ after) ∨ (who = other ∧ addr ∈ afterOther) ∨
        (who ≠ owner ∧ who ≠ other ∧ addr ∈ owned who) := by
    intro who addr
    by_cases second : who = other
    · subst second
      simp only [update_self, different.symm, ne_eq, not_true_eq_false, false_and, and_false, false_or, or_false,
        true_and]
    · rw [update_of_ne second]
      by_cases first : who = owner
      · subst first
        simp only [update_self, different, ne_eq, not_true_eq_false, false_and, or_false, true_and]
      · simp only [update_of_ne first, first, second, ne_eq, not_false_eq_true, false_and, false_or, true_and]
  have aside : forall {who addr}, who ≠ owner -> who ≠ other -> addr ∈ owned who ->
      addr ∉ owned owner ++ owned other ∧ addr ∉ after ++ afterOther := by
    intro who addr notFirst notSecond inside
    have notBefore : addr ∉ owned owner ++ owned other := by
      intro also
      rcases List.mem_append.mp also with mine | theirs
      · exact notFirst (division.apart who owner addr inside mine)
      · exact notSecond (division.apart who other addr inside theirs)
    exact ⟨notBefore, fun also => division.live who addr inside (evolves.fresh addr also notBefore)⟩
  constructor
  · intro who addr inside
    rcases mem_iff.mp inside with ⟨_, mine⟩ | ⟨_, theirs⟩ | ⟨notFirst, notSecond, before⟩
    · exact live addr (List.mem_append_left _ mine)
    · exact live addr (List.mem_append_right _ theirs)
    · have away := aside notFirst notSecond before
      rw [evolves.outside addr away.1 away.2]
      exact division.live who addr before
  · intro addr alive
    by_cases now : addr ∈ after ++ afterOther
    · rcases List.mem_append.mp now with mine | theirs
      · exact ⟨owner, mem_iff.mpr (Or.inl ⟨rfl, mine⟩)⟩
      · exact ⟨other, mem_iff.mpr (Or.inr (Or.inl ⟨rfl, theirs⟩))⟩
    · have notBefore : addr ∉ owned owner ++ owned other :=
        fun before => alive (evolves.released addr before now)
      rw [evolves.outside addr notBefore now] at alive
      rw [List.mem_append, not_or] at notBefore
      rcases division.covered addr alive with ⟨who, inside⟩
      refine ⟨who, mem_iff.mpr (Or.inr (Or.inr ⟨?_, ?_, inside⟩))⟩
      · rintro rfl
        exact notBefore.1 inside
      · rintro rfl
        exact notBefore.2 inside
  · intro left right addr inLeft inRight
    rcases mem_iff.mp inLeft with ⟨sameLeft, mine⟩ | ⟨sameLeft, theirs⟩ | ⟨notFirst, notSecond, before⟩ <;>
      rcases mem_iff.mp inRight with ⟨sameRight, mineToo⟩ | ⟨sameRight, theirsToo⟩ | ⟨notFirst', notSecond', before'⟩
    · exact sameLeft.trans sameRight.symm
    · exact absurd theirsToo (separate mine)
    · exact absurd (List.mem_append_left _ mine) (aside notFirst' notSecond' before').2
    · exact absurd theirs (separate mineToo)
    · exact sameLeft.trans sameRight.symm
    · exact absurd (List.mem_append_right _ theirs) (aside notFirst' notSecond' before').2
    · exact absurd (List.mem_append_left _ mineToo) (aside notFirst notSecond before).2
    · exact absurd (List.mem_append_right _ theirsToo) (aside notFirst notSecond before).2
    · exact division.apart left right addr before before'

/-- Owners may trade all that they own. -/
theorem reindex {Other : Type} (division : Partition first owned) (trade : Other ≃ Owner) :
    Partition first (fun other => owned (trade other)) := by
  refine ⟨fun other => division.live (trade other), ?_, ?_⟩
  · intro addr live
    rcases division.covered addr live with ⟨owner, inside⟩
    exact ⟨trade.symm owner, by rw [trade.apply_symm_apply]; exact inside⟩
  · intro left right addr inLeft inRight
    exact trade.injective (division.apart _ _ addr inLeft inRight)

/-- When nobody owns anything, nothing is live. -/
theorem nothing_live (division : Partition first owned)
    (nothing : forall owner, owned owner = []) (addr : Addr) : first addr = none := by
  by_contra live
  rcases division.covered addr live with ⟨owner, inside⟩
  rw [nothing owner] at inside
  exact List.not_mem_nil inside

end Partition

end Foundation
end TerseDsa
