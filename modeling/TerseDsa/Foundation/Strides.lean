import TerseDsa.Foundation.Bytes
import TerseDsa.Foundation.Run

namespace TerseDsa
namespace Foundation

open Run

/-!
# Rows of elems among bytes

A row has its elems one behind the other, each of so many bytes.  One row is
rewritten from others, position by position.  What has been written when an elem
is read lies before that elem, or lies elsewhere, as long as every row that is
read is apart from the one written or starts with it and has elems as wide.  So
the result does not depend on which of the two it is.
-/

/-- An address of a part is one of the whole. -/
theorem Region.Within.covers {inner outer : Region} {addr : Nat} (within : inner.Within outer) (covers : inner.Covers addr) :
    outer.Covers addr :=
  ⟨Nat.le_trans within.1 covers.1, Nat.lt_of_lt_of_le covers.2 within.2⟩

/-- The bytes of an elem. -/
abbrev Elem (size : Nat) := Fin size -> Byte

namespace Bytes

variable {bytes later last : Bytes} {addr size : Nat} {region wider : Region}

/-- The elem at an address. -/
def elemAt (bytes : Bytes) (addr size : Nat) : Elem size := fun offset => bytes (addr + offset)

/-- The memory after an elem was written. -/
def putElem (bytes : Bytes) (addr : Nat) {size : Nat} (elem : Elem size) : Bytes := fun there =>
  if inside : addr ≤ there ∧ there - addr < size then elem ⟨there - addr, inside.2⟩ else bytes there

theorem Keeps.refl (bytes : Bytes) (region : Region) : Keeps bytes bytes region := fun _ _ => rfl

theorem Keeps.trans (first : Keeps bytes later region) (second : Keeps later last region) : Keeps bytes last region :=
  fun addr outside => (second addr outside).trans (first addr outside)

theorem Keeps.widen (keeps : Keeps bytes later region) (within : region.Within wider) : Keeps bytes later wider := by
  intro addr outside
  apply keeps addr
  intro covers
  exact outside (within.covers covers)

theorem keeps_putElem (bytes : Bytes) (addr : Nat) (elem : Elem size) :
    Keeps bytes (putElem bytes addr elem) ⟨addr, size⟩ := by
  intro there outside
  apply dif_neg
  rintro ⟨low, inside⟩
  apply outside
  refine ⟨low, ?_⟩
  change there < addr + size
  omega

theorem elemAt_putElem (bytes : Bytes) (addr : Nat) (elem : Elem size) :
    elemAt (putElem bytes addr elem) addr size = elem := by
  funext offset
  have inside : addr ≤ addr + offset ∧ addr + offset - addr < size := by
    have below := offset.isLt
    omega
  rw [elemAt, putElem, dif_pos inside]
  congr
  exact Nat.add_sub_cancel_left _ _

/-- To copy so many bytes is to write the elem that they are. -/
theorem copy_eq_putElem (bytes : Bytes) (dst src size : Nat) :
    copy bytes dst src size = putElem bytes dst (elemAt bytes src size) := by
  funext there
  by_cases covers : Region.Covers ⟨dst, size⟩ there
  · have inside : dst ≤ there ∧ there < dst + size := covers
    rw [copy, overwrite, if_pos covers, putElem, dif_pos ⟨inside.1, by omega⟩]
    rfl
  · have outside : ¬ (dst ≤ there ∧ there < dst + size) := covers
    rw [copy, overwrite, if_neg covers, putElem, dif_neg (by omega)]

/-- An elem outside of what was written is the elem that was there. -/
theorem elemAt_of_unshared (keeps : Keeps bytes later region)
    (unshared : forall there, Region.Covers ⟨addr, size⟩ there -> ¬ region.Covers there) :
    elemAt later addr size = elemAt bytes addr size := by
  funext offset
  apply keeps
  apply unshared
  exact ⟨Nat.le_add_right _ _, Nat.add_lt_add_left offset.isLt addr⟩

end Bytes

/-- So many elems one behind the other. -/
structure Row where
  start : Nat
  size : Nat
  len : Nat

namespace Row

open Bytes

variable {A C S : Type} {dst src other : Row} {bytes later : Bytes} {i k : Nat}

/-- Where an elem starts. -/
def addrOf (row : Row) (i : Nat) : Nat := row.start + i * row.size

/-- The bytes of the elems in front of a position. -/
def front (row : Row) (i : Nat) : Region := ⟨row.start, i * row.size⟩

/-- The bytes of the row. -/
def region (row : Row) : Region := row.front row.len

/-- The elem at a position. -/
def elem (row : Row) (bytes : Bytes) (i : Nat) : Elem row.size := elemAt bytes (row.addrOf i) row.size

/-- The rows share no byte. -/
def Disjoint (row other : Row) : Prop := forall addr, row.region.Covers addr -> ¬ other.region.Covers addr

/-- What is written to `dst` up to a position was read from `src` before. -/
def Follows (dst src : Row) : Prop := dst.Disjoint src ∨ (dst.start = src.start ∧ dst.size ≤ src.size)

theorem front_stop (row : Row) (i : Nat) : (row.front i).stop = row.addrOf i := rfl

theorem addrOf_succ (row : Row) (i : Nat) : row.addrOf (i + 1) = row.addrOf i + row.size := by
  rw [addrOf, addrOf, Nat.succ_mul, Nat.add_assoc]

theorem addrOf_le (row : Row) (before : k ≤ i) : row.addrOf k ≤ row.addrOf i :=
  Nat.add_le_add_left (Nat.mul_le_mul_right _ before) _

theorem front_within (row : Row) (before : k ≤ i) : (row.front k).Within (row.front i) :=
  ⟨Nat.le_refl _, row.addrOf_le before⟩

theorem elem_within (row : Row) (before : i < k) : Region.Within ⟨row.addrOf i, row.size⟩ (row.front k) := by
  refine ⟨Nat.le_add_right _ _, ?_⟩
  rw [front_stop, Region.stop, ← addrOf_succ]
  exact row.addrOf_le before

theorem disjoint_of_empty (empty : dst.len = 0 ∨ src.len = 0) : dst.Disjoint src := by
  rintro addr ⟨low, high⟩ ⟨low', high'⟩
  rw [region, front_stop, addrOf] at high high'
  change dst.start ≤ addr at low
  change src.start ≤ addr at low'
  rcases empty with none_ | none_
  · rw [none_, Nat.zero_mul] at high
    omega
  · rw [none_, Nat.zero_mul] at high'
    omega

/-- Rows that have bytes share none if one ends before the other starts. -/
theorem disjoint_iff (some_ : dst.len ≠ 0 ∧ src.len ≠ 0) (wide : 0 < dst.size ∧ 0 < src.size) :
    dst.Disjoint src <-> dst.region.Apart src.region := by
  have bytesDst : 0 < dst.len * dst.size := Nat.mul_pos (Nat.pos_of_ne_zero some_.1) wide.1
  have bytesSrc : 0 < src.len * src.size := Nat.mul_pos (Nat.pos_of_ne_zero some_.2) wide.2
  constructor
  · intro disjoint
    have notFirst := disjoint dst.start
    have notSecond := disjoint src.start
    simp only [Region.Covers, Region.Apart, Region.stop, region, front] at *
    omega
  · exact fun apart _ covers => apart.not_covers covers

/-- An elem that was not read yet is as it was. -/
theorem Follows.unread (follows : dst.Follows src) (len : dst.len = src.len) (inside : i < src.len)
    (keeps : Keeps bytes later (dst.front i)) : src.elem later i = src.elem bytes i := by
  apply elemAt_of_unshared keeps
  intro addr here there
  rcases follows with disjoint | ⟨start, narrow⟩
  · exact disjoint addr ((dst.front_within (by omega)).covers there)
      ((src.elem_within inside).covers here)
  · have passed : dst.addrOf i ≤ src.addrOf i := by
      rw [addrOf, addrOf, start]
      exact Nat.add_le_add_left (Nat.mul_le_mul_left _ narrow) _
    exact Nat.lt_irrefl addr (Nat.lt_of_lt_of_le there.2 (Nat.le_trans passed here.1))

/-! ## Rewriting -/

/-- The state of an operation before it is applied at a position. -/
def stateAt {B : Type} (op : A -> C -> B × C) (operand : Nat -> A) (ctx : C) : Nat -> C
  | 0 => ctx
  | i + 1 => (op (operand i) (stateAt op operand ctx i)).2

/-- What the operation gives at a position. -/
def resultAt {B : Type} (op : A -> C -> B × C) (operand : Nat -> A) (ctx : C) (i : Nat) : B :=
  (op (operand i) (stateAt op operand ctx i)).1

/-- The row has these elems up to a position and nothing else changed. -/
structure Rewritten (dst : Row) (results : Nat -> Elem dst.size) (i : Nat) (bytes later : Bytes) : Prop where
  keeps : Keeps bytes later (dst.front i)
  elems : forall k, k < i -> dst.elem later k = results k

theorem Rewritten.none_ (dst : Row) (results : Nat -> Elem dst.size) (bytes : Bytes) : Rewritten dst results 0 bytes bytes :=
  ⟨Keeps.refl _ _, fun _ impossible => absurd impossible (Nat.not_lt_zero _)⟩

theorem Rewritten.put {results : Nat -> Elem dst.size} (rewritten : Rewritten dst results i bytes later) :
    Rewritten dst results (i + 1) bytes (putElem later (dst.addrOf i) (results i)) := by
  have written := keeps_putElem later (dst.addrOf i) (results i)
  refine ⟨(rewritten.keeps.widen (dst.front_within (Nat.le_succ i))).trans
    (written.widen (dst.elem_within (Nat.lt_succ_self i))), ?_⟩
  intro k before
  rcases Nat.lt_succ_iff_lt_or_eq.mp before with earlier | rfl
  · rw [← rewritten.elems k earlier]
    apply elemAt_of_unshared written
    intro addr here there
    exact Nat.lt_irrefl addr (Nat.lt_of_lt_of_le here.2
      (Nat.le_trans (dst.elem_within earlier).2 there.1))
  · exact elemAt_putElem later _ _

/-- Elems that are all the same are copied behind themselves. -/
theorem Rewritten.copied {held : Elem dst.size} {count : Nat} (rewritten : Rewritten dst (fun _ => held) i bytes later)
    (few : count ≤ i) : Rewritten dst (fun _ => held) (i + count) bytes
      (copy later (dst.addrOf i) dst.start (count * dst.size)) := by
  have behind : Region.Within ⟨dst.addrOf i, count * dst.size⟩ (dst.front (i + count)) := by
    refine ⟨Nat.le_add_right _ _, ?_⟩
    rw [front_stop, Region.stop, addrOf, addrOf, Nat.add_mul, Nat.add_assoc]
  have written := keeps_overwrite later ⟨dst.addrOf i, count * dst.size⟩ fun offset => later (dst.start + offset)
  refine ⟨(rewritten.keeps.widen (dst.front_within (Nat.le_add_right i count))).trans (written.widen behind), ?_⟩
  intro k before
  by_cases earlier : k < i
  · rw [← rewritten.elems k earlier]
    apply elemAt_of_unshared written
    intro addr here there
    exact Nat.lt_irrefl addr (Nat.lt_of_lt_of_le here.2 (Nat.le_trans (dst.elem_within earlier).2 there.1))
  · -- an elem of the copy is the one as far from the first as it is from the `i`th
    have split : dst.addrOf k = dst.addrOf i + (k - i) * dst.size := by
      rw [addrOf, addrOf, Nat.add_assoc, ← Nat.add_mul, Nat.add_sub_cancel' (Nat.not_lt.mp earlier)]
    have original := rewritten.elems (k - i) (by omega)
    rw [← original]
    funext offset
    have fits : (k - i) * dst.size + dst.size ≤ count * dst.size := by
      rw [← Nat.succ_mul]
      exact Nat.mul_le_mul_right _ (by omega)
    have inside := offset.isLt
    have covers : Region.Covers ⟨dst.addrOf i, count * dst.size⟩ (dst.addrOf k + offset) := by
      constructor
      · dsimp only
        omega
      · dsimp only [Region.stop]
        omega
    rw [elem, elemAt, copy, overwrite, if_pos covers, split]
    dsimp only [elem, elemAt, addrOf]
    congr 1
    omega

/-- The rule for rewriting a row position by position, if what is read at one was not written before. -/
theorem ends_rewriting {op : A -> C -> Elem dst.size × C} {operand : Bytes -> Nat -> A} {body : Nat -> C -> Run Bytes C}
    {ctx : C} (unread : forall i later, i < dst.len -> Keeps bytes later (dst.front i) -> operand later i = operand bytes i)
    (step : forall i ctx later (post : C -> Bytes -> Prop), i < dst.len ->
      post (op (operand later i) ctx).2 (putElem later (dst.addrOf i) (op (operand later i) ctx).1) ->
      Ends (body i ctx) later post) :
    Ends (countUp body dst.len 0 ctx) bytes fun last later =>
      last = stateAt op (operand bytes) ctx dst.len ∧
        Rewritten dst (resultAt op (operand bytes) ctx) dst.len bytes later := by
  apply ends_countUp (fun i now later => now = stateAt op (operand bytes) ctx i ∧
    Rewritten dst (resultAt op (operand bytes) ctx) i bytes later) (Nat.zero_add _)
  · rintro i now later - inside ⟨rfl, rewritten⟩
    apply step i _ later _ inside
    rw [unread i later inside rewritten.keeps]
    exact ⟨rfl, rewritten.put⟩
  · exact fun _ _ done => done
  · exact ⟨rfl, Rewritten.none_ _ _ _⟩

/-- Rows rewritten with the same elems have the same bytes. -/
theorem Rewritten.same_bytes {results : Nat -> Elem dst.size} {start : Nat} {before after : Bytes}
    (rewritten : Rewritten dst results dst.len bytes later)
    (also : Rewritten { dst with start := start } results dst.len before after) {offset : Nat}
    (inside : offset < dst.len * dst.size) : later (dst.start + offset) = after (start + offset) := by
  have wide : 0 < dst.size := Nat.pos_of_mul_pos_left (Nat.lt_of_le_of_lt (Nat.zero_le _) inside)
  have here : offset / dst.size < dst.len := Nat.div_lt_of_lt_mul (by rwa [Nat.mul_comm])
  have split : offset / dst.size * dst.size + offset % dst.size = offset := Nat.div_add_mod' offset dst.size
  have same := (rewritten.elems _ here).trans (also.elems _ here).symm
  have byte := congrFun same ⟨offset % dst.size, Nat.mod_lt _ wide⟩
  simp only [elem, elemAt, addrOf, Nat.add_assoc, split] at byte
  exact byte

/-- Rows that were rewritten from the same bytes with the same elems are the same bytes. -/
theorem Rewritten.unique {results : Nat -> Elem dst.size} {last : Bytes} (rewritten : Rewritten dst results dst.len bytes later)
    (also : Rewritten dst results dst.len bytes last) : later = last := by
  funext addr
  by_cases covers : dst.region.Covers addr
  · have wide : addr - dst.start < dst.len * dst.size := by
      have stop : addr < dst.start + dst.len * dst.size := covers.2
      have start : dst.start ≤ addr := covers.1
      omega
    have same := rewritten.same_bytes also wide
    have start : dst.start ≤ addr := covers.1
    rwa [Nat.add_sub_cancel' start] at same
  · rw [rewritten.keeps addr covers, also.keeps addr covers]

end Row
end Foundation
end TerseDsa
