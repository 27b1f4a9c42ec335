import TerseDsa.Foundation.Heap

namespace TerseDsa
namespace Foundation

open Run
open Function (update update_comm update_idem update_self update_of_ne update_eq_self)

/-!
# Slices of blocks

A block may hold a row of cells, and a slice is a stretch of one: a view that
neither owns nor copies.  `Shows` says which cells a slice shows, and `fill`
is the memory after they were replaced, so that a program on slices computes
on lists: filling twice is filling once, and filling a part of a slice fills
the slice with the part replaced.
-/

/-- A stretch of the cells of one block; without a block it is empty. -/
structure Slice where
  data : Option Addr
  start : Nat
  len : Nat

namespace Slice

variable {Tag Cell : Type} {slice other : Slice} {blocks : Blocks Tag (List Cell)}
  {heap : Heap Tag (List Cell)} {cells next left mid right : List Cell} {idx : Nat} {cell : Cell}

/-- `count` cells from `idx` on. -/
def part (slice : Slice) (idx count : Nat) : Slice := ⟨slice.data, slice.start + idx, count⟩

/-- The cell at `idx`. -/
def read (slice : Slice) (idx : Nat) : Run (Heap Tag (List Cell)) Cell := do
  let addr ← demand slice.data
  let row ← Heap.read addr
  demand row[slice.start + idx]?

/-- Overwrite the cell at `idx`. -/
def write (slice : Slice) (idx : Nat) (cell : Cell) : Run (Heap Tag (List Cell)) Unit := do
  let addr ← demand slice.data
  let row ← Heap.read addr
  require (slice.start + idx < row.length)
  Heap.write addr (row.set (slice.start + idx) cell)

/-- `count` cells from `idx` on. -/
def readRun (slice : Slice) (idx count : Nat) : Run (Heap Tag (List Cell)) (List Cell) := do
  let addr ← demand slice.data
  let row ← Heap.read addr
  require (slice.start + idx + count ≤ row.length)
  return (row.drop (slice.start + idx)).take count

/-- Overwrite the cells from `idx` on. -/
def writeRun (slice : Slice) (idx : Nat) (cells : List Cell) : Run (Heap Tag (List Cell)) Unit := do
  let addr ← demand slice.data
  let row ← Heap.read addr
  require (slice.start + idx + cells.length ≤ row.length)
  Heap.write addr (row.take (slice.start + idx) ++ cells ++ row.drop (slice.start + idx + cells.length))

/-- The memory has these cells in the slice. -/
structure Shows (blocks : Blocks Tag (List Cell)) (slice : Slice) (cells : List Cell) : Prop where
  length : cells.length = slice.len
  row : (slice.data = none ∧ cells = []) ∨ exists addr tag before after, slice.data = some addr ∧
    blocks addr = some ⟨tag, before ++ cells ++ after⟩ ∧ before.length = slice.start

/-- The memory with other cells in the slice. -/
def fill (blocks : Blocks Tag (List Cell)) (slice : Slice) (cells : List Cell) : Blocks Tag (List Cell) :=
  match slice.data with
  | none => blocks
  | some addr =>
      match blocks addr with
      | none => blocks
      | some block => update blocks addr (some { block with
          cell := block.cell.take slice.start ++ cells ++ block.cell.drop (slice.start + cells.length) })

/-- The slices share no cell. -/
def Apart (slice other : Slice) : Prop :=
  slice.data = other.data -> slice.len = 0 ∨ other.len = 0 ∨ slice.start + slice.len ≤ other.start ∨
    other.start + other.len ≤ slice.start

namespace Shows

/-- What `fill` does to a row that is known. -/
theorem fill_eq {addr : Addr} {tag : Tag} {before after : List Cell} (at_ : slice.data = some addr)
    (row : blocks addr = some ⟨tag, before ++ cells ++ after⟩) (start : before.length = slice.start)
    (length : next.length = cells.length) :
    fill blocks slice next = update blocks addr (some ⟨tag, before ++ next ++ after⟩) := by
  unfold fill
  simp only [at_, row]
  have front : (before ++ cells ++ after).take slice.start = before := by
    rw [List.append_assoc, ← start, List.take_left]
  have back : (before ++ cells ++ after).drop (slice.start + next.length) = after := by
    rw [length, ← start, ← List.length_append, List.drop_left]
  rw [front, back]

theorem unique {others : List Cell} (shows_ : Shows blocks slice cells) (also : Shows blocks slice others) :
    cells = others := by
  have lengths : cells.length = others.length := shows_.length.trans also.length.symm
  rcases shows_.row with ⟨_, empty⟩ | ⟨addr, tag, before, after, at_, row, start⟩
  · rw [empty, List.length_nil] at lengths
    rw [empty, List.eq_nil_of_length_eq_zero lengths.symm]
  · rcases also.row with ⟨nowhere, _⟩ | ⟨addr', tag', before', after', at', row', start'⟩
    · rw [nowhere] at at_
      cases at_
    · rw [at_] at at'
      cases at'
      rw [row] at row'
      injection row' with blocks_
      injection blocks_ with _ rows
      rw [List.append_assoc, List.append_assoc] at rows
      exact (List.append_inj (List.append_inj rows (start.trans start'.symm)).2 lengths).1

theorem filled (shows_ : Shows blocks slice cells) (length : next.length = cells.length) :
    Shows (fill blocks slice next) slice next := by
  refine ⟨length.trans shows_.length, ?_⟩
  rcases shows_.row with ⟨nowhere, empty⟩ | ⟨addr, tag, before, after, at_, row, start⟩
  · rw [empty] at length
    exact Or.inl ⟨nowhere, List.eq_nil_of_length_eq_zero length⟩
  · rw [fill_eq at_ row start length]
    exact Or.inr ⟨addr, tag, before, after, at_, update_self _ _ _, start⟩

theorem fill_same (shows_ : Shows blocks slice cells) : fill blocks slice cells = blocks := by
  rcases shows_.row with ⟨nowhere, _⟩ | ⟨addr, tag, before, after, at_, row, start⟩
  · unfold fill
    rw [nowhere]
  · rw [fill_eq at_ row start rfl, ← row, update_eq_self]

theorem fill_fill (shows_ : Shows blocks slice cells) (length : mid.length = cells.length)
    (lengthNext : next.length = cells.length) :
    fill (fill blocks slice mid) slice next = fill blocks slice next := by
  rcases shows_.row with ⟨nowhere, _⟩ | ⟨addr, tag, before, after, at_, row, start⟩
  · unfold fill
    rw [nowhere]
  · rw [fill_eq at_ row start length, fill_eq at_ row start lengthNext,
      fill_eq at_ (update_self _ _ _) start (lengthNext.trans length.symm), update_idem]

/-- A part of the slice shows a part of the cells. -/
theorem part (shows_ : Shows blocks slice (left ++ mid ++ right)) :
    Shows blocks (slice.part left.length mid.length) mid := by
  refine ⟨rfl, ?_⟩
  rcases shows_.row with ⟨nowhere, empty⟩ | ⟨addr, tag, before, after, at_, row, start⟩
  · simp only [List.append_eq_nil_iff] at empty
    exact Or.inl ⟨nowhere, empty.1.2⟩
  · refine Or.inr ⟨addr, tag, before ++ left, right ++ after, at_, ?_, ?_⟩
    · rw [row]
      simp only [List.append_assoc]
    · rw [List.length_append, start]
      rfl

theorem fill_part (shows_ : Shows blocks slice (left ++ mid ++ right)) (length : next.length = mid.length) :
    fill blocks (slice.part left.length mid.length) next = fill blocks slice (left ++ next ++ right) := by
  rcases shows_.row with ⟨nowhere, _⟩ | ⟨addr, tag, before, after, at_, row, start⟩
  · have nowhereToo : (slice.part left.length mid.length).data = none := nowhere
    unfold fill
    rw [nowhere, nowhereToo]
  · have whole : (left ++ next ++ right).length = (left ++ mid ++ right).length := by
      simp only [List.length_append, length]
    have split : blocks addr = some ⟨tag, (before ++ left) ++ mid ++ (right ++ after)⟩ := by
      rw [row]
      simp only [List.append_assoc]
    have there : (before ++ left).length = (slice.part left.length mid.length).start := by
      rw [List.length_append, start]
      rfl
    have part : fill blocks (slice.part left.length mid.length) next = update blocks addr
        (some ⟨tag, (before ++ left) ++ next ++ (right ++ after)⟩) := fill_eq at_ split there length
    rw [part, fill_eq at_ row start whole]
    simp only [List.append_assoc]

/-- Outside the cells that were replaced a row is what it was. -/
theorem outside {before after : List Cell} (length : next.length = cells.length)
    (away : idx < before.length ∨ before.length + cells.length ≤ idx) :
    (before ++ next ++ after)[idx]? = (before ++ cells ++ after)[idx]? := by
  rcases away with early | late
  · rw [List.append_assoc, List.append_assoc, List.getElem?_append_left early, List.getElem?_append_left early]
  · rw [List.getElem?_append_right (by rw [List.length_append, length]; exact late),
      List.getElem?_append_right (by rw [List.length_append]; exact late), List.length_append, List.length_append,
      length]

/-- A row around the cells it has in the middle. -/
theorem cut {row : List Cell} {start : Nat} (middle : (row.drop start).take cells.length = cells) :
    row = row.take start ++ cells ++ row.drop (start + cells.length) := by
  have back : (row.drop start).take cells.length ++ (row.drop start).drop cells.length = row.drop start :=
    List.take_append_drop _ _
  rw [middle, List.drop_drop] at back
  rw [List.append_assoc, back, List.take_append_drop]

/-- A slice that does not overlap shows what it did. -/
theorem beside {others : List Cell} (shows_ : Shows blocks slice cells) (showsOther : Shows blocks other others)
    (length : next.length = cells.length) (apart : Apart slice other) :
    Shows (fill blocks slice next) other others := by
  refine ⟨showsOther.length, ?_⟩
  rcases showsOther.row with nowhere | ⟨there, tagOther, beforeOther, afterOther, atOther, rowOther, startOther⟩
  · exact Or.inl nowhere
  · rcases shows_.row with ⟨nowhere, _⟩ | ⟨addr, tag, before, after, at_, row, start⟩
    · unfold fill
      rw [nowhere]
      exact Or.inr ⟨there, tagOther, beforeOther, afterOther, atOther, rowOther, startOther⟩
    · rw [fill_eq at_ row start length]
      by_cases same : there = addr
      · subst same
        have rows := row.symm.trans rowOther
        injection rows with rows
        injection rows with _ rows
        have kept : forall k, k < others.length ->
            (before ++ next ++ after)[other.start + k]? = others[k]? := by
          intro k inside
          have away := apart (at_.trans atOther.symm)
          rw [← shows_.length, ← showsOther.length, ← start] at away
          have found : (beforeOther ++ others ++ afterOther)[other.start + k]? = others[k]? := by
            rw [← startOther, List.append_assoc, List.getElem?_append_right (Nat.le_add_right _ _),
              Nat.add_sub_cancel_left, List.getElem?_append_left inside]
          rw [outside length (by omega), rows, found]
        have fits : other.start + others.length ≤ (before ++ next ++ after).length := by
          have total := congrArg List.length rows
          simp only [List.length_append] at total ⊢
          omega
        have middle : ((before ++ next ++ after).drop other.start).take others.length = others := by
          apply List.ext_getElem?
          intro k
          by_cases inside : k < others.length
          · rw [List.getElem?_take_of_lt inside, List.getElem?_drop, kept k inside]
          · rw [List.getElem?_eq_none (by rw [List.length_take]; omega),
              List.getElem?_eq_none (Nat.le_of_not_lt inside)]
        refine Or.inr ⟨there, tag, (before ++ next ++ after).take other.start,
          (before ++ next ++ after).drop (other.start + others.length), atOther, ?_, ?_⟩
        · rw [update_self]
          congr 2
          exact cut middle
        · rw [List.length_take]
          omega
      · refine Or.inr ⟨there, tagOther, beforeOther, afterOther, atOther, ?_, startOther⟩
        rw [update_of_ne same, rowOther]

end Shows

theorem fill_update {addr : Addr} {entry : Option (Block Tag (List Cell))} (away : slice.data ≠ some addr) :
    fill (update blocks addr entry) slice next = update (fill blocks slice next) addr entry := by
  unfold fill
  cases at_ : slice.data with
  | none => rfl
  | some here =>
      have different : here ≠ addr := by
        rintro rfl
        exact away at_
      dsimp only
      rw [update_of_ne different]
      cases blocks here with
      | none => rfl
      | some block => exact update_comm (Ne.symm different) _ _ _

theorem fill_elsewhere {addr : Addr} (away : slice.data ≠ some addr) : fill blocks slice next addr = blocks addr := by
  have same : fill (update blocks addr (blocks addr)) slice next =
      update (fill blocks slice next) addr (blocks addr) := fill_update away
  have there := congrFun same addr
  rwa [update_eq_self, update_self] at there

/-! ## Rules -/

theorem ends_read (shows_ : Shows heap.blocks slice cells) (inside : idx < cells.length)
    {post : Cell -> Heap Tag (List Cell) -> Prop} :
    Ends (read slice idx) heap post <-> post cells[idx] heap := by
  rcases shows_.row with ⟨_, empty⟩ | ⟨addr, tag, before, after, at_, row, start⟩
  · subst empty
    exact absurd inside (Nat.not_lt_zero _)
  · have found : (before ++ cells ++ after)[slice.start + idx]? = some cells[idx] := by
      rw [← start, List.append_assoc, List.getElem?_append_right (Nat.le_add_right _ _), Nat.add_sub_cancel_left,
        List.getElem?_append_left inside, List.getElem?_eq_getElem inside]
    simp only [read, at_, ends_bind, ends_demand_some, Heap.ends_read row, found]

theorem ends_write (shows_ : Shows heap.blocks slice cells) (inside : idx < cells.length)
    {post : Unit -> Heap Tag (List Cell) -> Prop}
    (done : forall later : Heap Tag (List Cell), later.blocks = fill heap.blocks slice (cells.set idx cell) ->
      post () later) :
    Ends (write slice idx cell) heap post := by
  rcases shows_.row with ⟨_, empty⟩ | ⟨addr, tag, before, after, at_, row, start⟩
  · subst empty
    exact absurd inside (Nat.not_lt_zero _)
  · have within : slice.start + idx < (before ++ cells ++ after).length := by
      simp only [List.length_append]
      omega
    have set_ : (before ++ cells ++ after).set (slice.start + idx) cell = before ++ cells.set idx cell ++ after := by
      rw [← start, List.append_assoc, List.set_append_right _ _ (Nat.le_add_right _ _), Nat.add_sub_cancel_left,
        List.set_append_left _ _ inside, List.append_assoc]
    simp only [write, at_, ends_bind, ends_demand_some, Heap.ends_read row, ends_require, within,
      true_and, Heap.ends_write row]
    apply done
    rw [Heap.put_blocks, Shows.fill_eq at_ row start List.length_set, set_]

theorem Shows.some_data (shows_ : Shows heap.blocks slice cells) (some_ : cells ≠ []) :
    exists addr tag before after, slice.data = some addr ∧
      heap.blocks addr = some ⟨tag, before ++ cells ++ after⟩ ∧ before.length = slice.start :=
  shows_.row.resolve_left fun nowhere => some_ nowhere.2

theorem ends_readRun (shows_ : Shows heap.blocks slice (left ++ mid ++ right)) (some_ : left ++ mid ++ right ≠ [])
    {post : List Cell -> Heap Tag (List Cell) -> Prop} :
    Ends (readRun slice left.length mid.length) heap post <-> post mid heap := by
  rcases shows_.some_data some_ with ⟨addr, tag, before, after, at_, row, start⟩
  have within : slice.start + left.length + mid.length ≤ (before ++ (left ++ mid ++ right) ++ after).length := by
    simp only [List.length_append]
    omega
  have taken : ((before ++ (left ++ mid ++ right) ++ after).drop (slice.start + left.length)).take mid.length =
      mid := by
    have split : before ++ (left ++ mid ++ right) ++ after = (before ++ left) ++ (mid ++ (right ++ after)) := by
      simp only [List.append_assoc]
    rw [split, ← start, ← List.length_append, List.drop_left, List.take_left]
  simp only [readRun, at_, ends_bind, ends_demand_some, Heap.ends_read row, ends_require, within,
    true_and, ends_pure, taken]

theorem ends_writeRun (shows_ : Shows heap.blocks slice (left ++ mid ++ right)) (length : next.length = mid.length)
    (some_ : left ++ mid ++ right ≠ []) {post : Unit -> Heap Tag (List Cell) -> Prop}
    (done : forall later : Heap Tag (List Cell),
      later.blocks = fill heap.blocks slice (left ++ next ++ right) -> post () later) :
    Ends (writeRun slice left.length next) heap post := by
  rcases shows_.some_data some_ with ⟨addr, tag, before, after, at_, row, start⟩
  have within : slice.start + left.length + next.length ≤ (before ++ (left ++ mid ++ right) ++ after).length := by
    simp only [List.length_append, length]
    omega
  have split : before ++ (left ++ mid ++ right) ++ after = (before ++ left) ++ (mid ++ (right ++ after)) := by
    simp only [List.append_assoc]
  have front : (before ++ (left ++ mid ++ right) ++ after).take (slice.start + left.length) = before ++ left := by
    rw [split, ← start, ← List.length_append, List.take_left]
  have back : (before ++ (left ++ mid ++ right) ++ after).drop (slice.start + left.length + next.length) =
      right ++ after := by
    rw [split, ← start, ← List.length_append, length, ← List.append_assoc, ← List.length_append, List.drop_left]
  have whole : (left ++ next ++ right).length = (left ++ mid ++ right).length := by
    simp only [List.length_append, length]
  simp only [writeRun, at_, ends_bind, ends_demand_some, Heap.ends_read row, ends_require, within,
    true_and, Heap.ends_write row]
  apply done
  rw [Heap.put_blocks, Shows.fill_eq at_ row start whole, front, back]
  simp only [List.append_assoc]

end Slice
end Foundation
end TerseDsa
