import TerseDsa.Core.Layout
import TerseDsa.Foundation.Heap

namespace TerseDsa

open Foundation Run
open Function (update update_comm update_idem update_self update_of_ne)

/-!
# The allocator wrappers

A `tda_Al` is known by its identity; the view `= {}` is no allocator.  Every
block is tagged with the allocator that made it and the layout it was asked
for, so that `dealloc` goes wrong unless it names a live block of that same
allocator under exactly that layout.
-/

/-- `tda_Al`; `none` is the view without hooks. -/
abbrev Al := Option Nat

/-- What a block has to be given back under. -/
abbrev AlTag := Al × Layout

/-- Memory behind the allocators, with blocks that hold `Cell`. -/
abbrev AlHeap (Cell : Type) := Heap AlTag Cell

variable {Cell : Type}

/-- `tda_alloc`.  `cell` is what the caller fills the block with. -/
def alloc (al : Al) (layout : Layout) (cell : Cell) : Run (AlHeap Cell) (Option Addr) := do
  require (al.isSome)
  if layout.size = 0 then
    return none
  Heap.request (al, layout) cell

/-- `tda_dealloc`. -/
def dealloc (al : Al) (ptr : Option Addr) (layout : Layout) : Run (AlHeap Cell) Unit := do
  require (al.isSome)
  require (ptr = none ∨ 0 < layout.size)
  match ptr with
  | none => return ()
  | some addr => Heap.release addr (al, layout)

/-- `tda_realloc`.  `fresh` is what a new block is filled with, and `cut` what a
block of the new size holds of the old one. -/
def realloc (al : Al) (ptr : Option Addr) (old : Layout) (newSize : Nat) (fresh : Cell)
    (cut : Cell -> Cell) : Run (AlHeap Cell) (Option Addr) := do
  require (al.isSome)
  require (ptr = none <-> old.size = 0)
  if newSize = 0 then
    dealloc al ptr old
    return none
  match ptr with
  | none => alloc al ⟨newSize, old.align⟩ fresh
  | some addr =>
      -- cheapest first: no move, then the allocator's own move, then a copy
      if ← Heap.resize addr (al, old) (al, ⟨newSize, old.align⟩) cut then
        return some addr
      match ← Heap.remap addr (al, old) (al, ⟨newSize, old.align⟩) cut with
      | some moved => return some moved
      | none =>
          match ← alloc al ⟨newSize, old.align⟩ fresh with
          | none => return none
          | some newPtr =>
              let cell ← Heap.read addr
              Heap.write newPtr (cut cell)
              dealloc al (some addr) old
              return some newPtr

/-- `tda_alloc_n_`, the body of `TDA_ALLOC` and `TDA_ALLOC_ZEROED`. -/
def allocN (al : Al) (elem : Layout) (count : Nat) (cell : Cell) :
    Run (AlHeap Cell) (Option Addr) :=
  match elem.ckdArray count with
  | none => return none
  | some layout => alloc al layout cell

/-- `tda_realloc_n_`, the body of `TDA_REALLOC`. -/
def reallocN (al : Al) (ptr : Option Addr) (elem : Layout) (oldCount newCount : Nat) (fresh : Cell)
    (cut : Cell -> Cell) : Run (AlHeap Cell) (Option Addr) :=
  match elem.ckdArray newCount with
  | none => return none
  | some newLayout => realloc al ptr ⟨wrapMul oldCount elem.size, elem.align⟩ newLayout.size fresh cut

/-- `tda_dealloc_n_`, the body of `TDA_DEALLOC`. -/
def deallocN (al : Al) (ptr : Option Addr) (elem : Layout) (count : Nat) :
    Run (AlHeap Cell) Unit := do
  let layout ← demand (elem.ckdArray count)
  dealloc al ptr layout

/-- What comes of asking for some bytes is settled by the next answer. -/
theorem ends_alloc_answered {al : Al} {layout : Layout} {cell : Cell} {heap : AlHeap Cell}
    {post : Option Addr -> AlHeap Cell -> Prop} (real : al.isSome = true)
    (refused : forall later : AlHeap Cell, (0 < layout.size -> ¬ heap.Grants) -> later.blocks = heap.blocks ->
      post none later)
    (granted : 0 < layout.size -> heap.Grants -> forall addr (later : AlHeap Cell), heap.blocks addr = none ->
      later.blocks = update heap.blocks addr (some ⟨(al, layout), cell⟩) ->
      post (some addr) later) :
    Ends (alloc al layout cell) heap post := by
  simp only [alloc, ends_bind, ends_require, real, true_and]
  by_cases empty : layout.size = 0
  · simp only [if_pos empty, ends_pure]
    exact refused heap (fun some_ => absurd empty (Nat.ne_of_gt some_)) rfl
  · simp only [if_neg empty]
    exact Heap.ends_request_answered (fun denied => refused _ (fun _ => denied) rfl) (fun grants addr free =>
      granted (Nat.pos_of_ne_zero empty) grants addr _ free rfl)

theorem ends_alloc {al : Al} {layout : Layout} {cell : Cell} {heap : AlHeap Cell}
    {post : Option Addr -> AlHeap Cell -> Prop} (real : al.isSome = true)
    (refused : heap.Spared (post none))
    (granted : 0 < layout.size -> forall addr (later : AlHeap Cell), heap.blocks addr = none ->
      later.blocks = update heap.blocks addr (some ⟨(al, layout), cell⟩) ->
      post (some addr) later) :
    Ends (alloc al layout cell) heap post :=
  ends_alloc_answered real (fun later _ => refused later) fun some_ _ => granted some_

theorem ends_dealloc_none {al : Al} {layout : Layout} {heap : AlHeap Cell}
    {post : Unit -> AlHeap Cell -> Prop} (real : al.isSome = true) :
    Ends (dealloc al none layout) heap post <-> post () heap := by
  simp only [dealloc, ends_bind, ends_require, real, true_and, true_or, ends_pure]

theorem ends_dealloc_some {al : Al} {layout : Layout} {heap : AlHeap Cell} {addr : Addr}
    {cell : Cell} {post : Unit -> AlHeap Cell -> Prop} (real : al.isSome = true)
    (sized : 0 < layout.size) (live : heap.blocks addr = some ⟨(al, layout), cell⟩) :
    Ends (dealloc al (some addr) layout) heap post <-> post () (heap.put addr none) := by
  simp only [dealloc, ends_bind, ends_require, real, true_and, sized, or_true]
  exact Heap.ends_release live rfl

/-- A block becomes one of another size, at whatever address, or nothing has changed. -/
theorem ends_realloc_some {al : Al} {old : Layout} {newSize : Nat} {fresh cell : Cell} {cut : Cell -> Cell}
    {heap : AlHeap Cell} {addr : Addr} {post : Option Addr -> AlHeap Cell -> Prop}
    (real : al.isSome = true) (sized : 0 < old.size) (wanted : 0 < newSize)
    (live : heap.blocks addr = some ⟨(al, old), cell⟩)
    (refused : heap.Spared (post none))
    (moved : forall other (later : AlHeap Cell), other = addr ∨ heap.blocks other = none ->
      later.blocks = update (update heap.blocks addr none) other
        (some ⟨(al, ⟨newSize, old.align⟩), cut cell⟩) -> post (some other) later) :
    Ends (realloc al (some addr) old newSize fresh cut) heap post := by
  have present : (some addr = none <-> old.size = 0) :=
    ⟨(nomatch ·), fun empty => absurd empty (Nat.ne_of_gt sized)⟩
  simp only [realloc, ends_bind, ends_require, real, present, true_and,
    if_neg (Nat.ne_of_gt wanted)]
  apply Heap.ends_resize live rfl
  · have liveStill : heap.refuse.blocks addr = some ⟨(al, old), cell⟩ := live
    simp only [Bool.false_eq_true, if_false, ends_bind]
    apply Heap.ends_remap liveStill rfl
    · have still : heap.refuse.refuse.blocks = heap.blocks := rfl
      simp only [ends_bind]
      apply ends_alloc real
      · intro later same
        rw [still] at same
        exact (ends_pure _ _ _).mpr (refused later same)
      · intro _ other later free same
        rw [still] at free same
        have different : addr ≠ other := by
          rintro rfl
          rw [live] at free
          cases free
        have there : later.blocks addr = some ⟨(al, old), cell⟩ := by
          rw [same, update_of_ne different, live]
        have here : later.blocks other = some ⟨(al, ⟨newSize, old.align⟩), fresh⟩ := by
          rw [same, update_self]
        have stillThere : (later.put other (some ⟨(al, ⟨newSize, old.align⟩), cut cell⟩)).blocks addr =
            some ⟨(al, old), cell⟩ := by
          rw [Heap.put_blocks, update_of_ne different, there]
        simp only [ends_bind, Heap.ends_read there, Heap.ends_write here,
          ends_dealloc_some real sized stillThere, ends_pure]
        apply moved other _ (Or.inr free)
        rw [Heap.put_blocks, Heap.put_blocks, same, update_idem,
          update_comm different.symm]
    · intro other free
      exact (ends_pure _ _ _).mpr (moved other _ free rfl)
  · simp only [if_true, ends_pure]
    apply moved addr _ (Or.inl rfl)
    rw [Heap.grant_blocks, update_idem]

/-! ## The block of an array -/

/-- A block for `count` elems, which there is none of where `count` is zero. -/
def Owns (blocks : Blocks AlTag Cell) (al : Al) (elem : Layout) (ptr : Option Addr) (count : Nat)
    (cell : Cell) : Prop :=
  (ptr = none ∧ count = 0) ∨ exists addr, ptr = some addr ∧ 0 < count ∧
    blocks addr = some ⟨(al, ⟨elem.size * count, elem.align⟩), cell⟩

namespace Owns

variable {blocks later : Blocks AlTag Cell} {heap : AlHeap Cell} {al : Al} {elem : Layout} {ptr : Option Addr}
  {count newCount : Nat} {cell fresh : Cell} {cut : Cell -> Cell}

theorem live (owns : Owns blocks al elem ptr count cell) {addr : Addr} (mine : addr ∈ ptr.toList) :
    blocks addr ≠ none := by
  rcases owns with ⟨none_, _⟩ | ⟨_, at_, _, block⟩
  · rw [none_] at mine
    exact absurd mine List.not_mem_nil
  · rw [at_] at mine
    rw [List.mem_singleton.mp mine, block]
    exact Option.some_ne_none _

theorem congr (owns : Owns blocks al elem ptr count cell)
    (agree : forall addr, addr ∈ ptr.toList -> later addr = blocks addr) :
    Owns later al elem ptr count cell := by
  refine owns.imp_right ?_
  rintro ⟨addr, at_, some_, block⟩
  refine ⟨addr, at_, some_, ?_⟩
  rw [agree addr (by rw [at_]; exact List.mem_singleton_self addr), block]

theorem block_at (owns : Owns blocks al elem ptr count cell) (some_ : 0 < count) :
    exists addr, ptr = some addr ∧ blocks addr = some ⟨(al, ⟨elem.size * count, elem.align⟩), cell⟩ := by
  rcases owns with ⟨_, none_⟩ | ⟨addr, at_, _, block⟩
  · exact absurd none_ (Nat.ne_of_gt some_)
  · exact ⟨addr, at_, block⟩

/-- There is a block exactly if there is room for elems. -/
theorem none_iff (owns : Owns blocks al elem ptr count cell) : ptr = none <-> count = 0 := by
  rcases owns with ⟨none_, empty⟩ | ⟨addr, at_, some_, _⟩
  · exact ⟨fun _ => empty, fun _ => none_⟩
  · exact ⟨fun none_ => (nomatch at_.symm.trans none_), fun empty => absurd empty (Nat.ne_of_gt some_)⟩

theorem write {addr : Addr} {block : Block AlTag Cell} (owns : Owns heap.blocks al elem ptr count cell)
    (at_ : ptr = some addr) (live : heap.blocks addr = some block) (next : Cell) :
    Owns (heap.put addr (some { block with cell := next })).blocks al elem ptr count next ∧
      Evolves heap.blocks (heap.put addr (some { block with cell := next })).blocks ptr.toList ptr.toList := by
  constructor
  · refine owns.imp_right ?_
    rintro ⟨other, there, some_, held⟩
    rw [at_] at there
    cases there
    rw [live] at held
    cases held
    exact ⟨addr, at_, some_, by rw [Heap.put_blocks, update_self]⟩
  · rw [Heap.put_blocks]
    apply Evolves.of_write
    rw [at_]
    exact List.mem_singleton_self addr

theorem ends_alloc (real : al.isSome = true) (some_ : 0 < count) {post : Option Addr -> AlHeap Cell -> Prop}
    (refused : heap.Spared (post none))
    (granted : forall addr (later : AlHeap Cell), Owns later.blocks al elem (some addr) count cell ->
      Evolves heap.blocks later.blocks [] [addr] -> post (some addr) later) :
    Ends (alloc al ⟨elem.size * count, elem.align⟩ cell) heap post := by
  apply TerseDsa.ends_alloc real refused
  intro _ addr later free same
  refine granted addr later (Or.inr ⟨addr, rfl, some_, by rw [same, update_self]⟩) ?_
  rw [same]
  exact Evolves.of_grant free fun other => by simp

theorem ends_dealloc (owns : Owns heap.blocks al elem ptr count cell) (real : al.isSome = true)
    (sized : 0 < elem.size) {post : Unit -> AlHeap Cell -> Prop}
    (done : forall later : AlHeap Cell, Evolves heap.blocks later.blocks ptr.toList [] -> post () later) :
    Ends (dealloc al ptr ⟨elem.size * count, elem.align⟩) heap post := by
  rcases owns with ⟨none_, _⟩ | ⟨addr, at_, some_, block⟩
  · rw [none_, ends_dealloc_none real]
    apply done
    rw [none_]
    exact Evolves.refl _ _
  · rw [at_, ends_dealloc_some real (Nat.mul_pos sized some_) block]
    apply done
    rw [at_]
    exact Evolves.of_release (List.mem_singleton_self addr) fun other => by simp

/-- The block becomes one for another number of elems, or nothing has changed. -/
theorem ends_realloc (owns : Owns heap.blocks al elem ptr count cell) (real : al.isSome = true)
    (sized : 0 < elem.size) {post : Option Addr -> AlHeap Cell -> Prop}
    (refused : 0 < newCount -> heap.Spared (post none))
    (done : forall (newPtr : Option Addr) (later : AlHeap Cell),
      Owns later.blocks al elem newPtr newCount (if count = 0 then fresh else cut cell) ->
      Evolves heap.blocks later.blocks ptr.toList newPtr.toList -> post newPtr later) :
    Ends (realloc al ptr ⟨elem.size * count, elem.align⟩ (elem.size * newCount) fresh cut) heap post := by
  have present : (ptr = none <-> elem.size * count = 0) := by
    rw [owns.none_iff, Nat.mul_eq_zero]
    exact ⟨Or.inr, fun none_ => none_.resolve_left (Nat.ne_of_gt sized)⟩
  by_cases empty : newCount = 0
  · subst empty
    simp only [realloc, ends_bind, ends_require, real, present, true_and, Nat.mul_zero, if_true]
    apply owns.ends_dealloc real sized
    intro later gone
    exact (ends_pure _ _ _).mpr (done none later (Or.inl ⟨rfl, rfl⟩) gone)
  · have some_ := Nat.pos_of_ne_zero empty
    have wanted : 0 < elem.size * newCount := Nat.mul_pos sized some_
    rcases owns with ⟨none_, nothing⟩ | ⟨addr, at_, held, block⟩
    · have zero := present.mp none_
      rw [if_pos nothing, none_] at done
      simp only [realloc, ends_bind, ends_require, real, none_, zero, true_and, if_neg (Nat.ne_of_gt wanted)]
      exact ends_alloc real some_ (refused some_) fun addr later now evolves => done _ later now evolves
    · rw [if_neg (Nat.ne_of_gt held)] at done
      rw [at_] at done ⊢
      apply ends_realloc_some real (Nat.mul_pos sized held) wanted block (refused some_)
      intro other later free same
      apply done (some other) later
      · exact Or.inr ⟨other, rfl, some_, by rw [same, update_self]⟩
      · rw [same]
        exact Evolves.of_move free

end Owns

end TerseDsa
