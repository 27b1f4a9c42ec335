import TerseDsa.Alloc.Wrappers
import TerseDsa.Core.Layout
import TerseDsa.Foundation.Requests

namespace TerseDsa

open Foundation Run

/-!
# Growth

Room is first asked for by the growth factor and then exactly, and both sizes
may overflow.  Here counts and sizes are numbers without a bound: `Growth`
says that what was asked for is what the elems take, and that an operation
gives up only where so much cannot be counted or was refused.
-/

/-- So many elems of `size` bytes each cannot be counted in bytes, or the allocator denied every request up to the one
for exactly so many. -/
def Refusal {Cell : Type} (ask : Nat -> Run (AlHeap Cell) (Option Addr)) (size need : Nat) (heap later : AlHeap Cell) :
    Prop :=
  exists made, Requests ask made heap none later ∧ (sizeRange ≤ size * need ∨ made.getLast? = some need)

/-- Room was wanted for `need` elems of `size` bytes each.  What was asked for in turn is `made`, a list of
capacities; then the status is `st`, and there is a block of `cap` elems at `data`. -/
structure Growth {Cell : Type} (ask : Nat -> Run (AlHeap Cell) (Option Addr)) (size need : Nat) (heap : AlHeap Cell)
    (made : List Nat) (st : Status) (data : Option Addr) (cap : Nat) (later : AlHeap Cell) : Prop where
  exactly : forall asked, asked ∈ made -> need ≤ asked ∧ size * asked < sizeRange
  ok : st = .ok -> need ≤ cap ∧ size * cap < sizeRange ∧
    ((made = [] ∧ later.asked = heap.asked) ∨ exists ptr mid, Requests ask made heap (some ptr) mid ∧
      later.asked = mid.asked ∧ made.getLast? = some cap ∧ data = some ptr)
  refused : st ≠ .ok -> st = .errNoMem ∧ Requests ask made heap none later ∧
    (sizeRange ≤ size * need ∨ made.getLast? = some need)
  overflow : sizeRange ≤ need ∨ sizeRange ≤ size * need -> st = .errNoMem ∧ made = []

theorem quiet_dealloc {Cell : Type} (al : Al) (ptr : Option Addr) (layout : Layout) :
    Heap.Quiet (dealloc al ptr layout : Run (AlHeap Cell) Unit) := by
  refine (Heap.Quiet.of_require _).bind fun _ => (Heap.Quiet.of_require _).bind fun _ => ?_
  cases ptr with
  | none => exact Heap.Quiet.of_pure ()
  | some addr => exact Heap.Quiet.release _ _

namespace Growth

variable {Cell : Type} {ask : Nat -> Run (AlHeap Cell) (Option Addr)} {size need more : Nat}
  {heap mid later : AlHeap Cell} {made others : List Nat} {st : Status} {data was : Option Addr} {cap old : Nat}
  {ptr : Addr}

/-- What is countable in bytes is countable. -/
theorem countable (sized : 0 < size) (fits : size * cap < sizeRange) (enough : need ≤ cap) :
    ¬ (sizeRange ≤ need ∨ sizeRange ≤ size * need) := by
  have bytes : size * need ≤ size * cap := Nat.mul_le_mul_left size enough
  have elems : need ≤ size * need := Nat.le_mul_of_pos_left need sized
  omega

theorem enough (sized : 0 < size) (fits : size * cap < sizeRange) (room : need ≤ cap)
    (same : later.asked = heap.asked) : Growth ask size need heap [] .ok data cap later :=
  ⟨fun _ impossible => absurd impossible List.not_mem_nil, fun _ => ⟨room, fits, Or.inl ⟨rfl, same⟩⟩,
    fun impossible => absurd rfl impossible, fun tooMuch => absurd tooMuch (countable sized fits room)⟩

/-- So much cannot be asked for. -/
theorem overflowed (tooMuch : sizeRange ≤ size * need) : Growth ask size need heap [] .errNoMem data cap heap :=
  ⟨fun _ impossible => absurd impossible List.not_mem_nil, fun impossible => (nomatch impossible),
    fun _ => ⟨rfl, .nothing heap, Or.inl tooMuch⟩, fun _ => ⟨rfl, rfl⟩⟩

/-- Exactly so much was asked for and granted. -/
theorem granted (sized : 0 < size) (fits : size * need < sizeRange) (answered : ask need heap = some (some ptr, mid))
    (same : later.asked = mid.asked) : Growth ask size need heap [need] .ok (some ptr) need later := by
  refine ⟨?_, fun _ => ⟨Nat.le_refl need, fits, Or.inr ⟨ptr, mid, .granted answered, same, rfl, rfl⟩⟩,
    fun impossible => absurd rfl impossible, fun tooMuch => absurd tooMuch (countable sized fits (Nat.le_refl need))⟩
  intro asked inside
  rw [List.mem_singleton.mp inside]
  exact ⟨Nat.le_refl need, fits⟩

/-- Exactly so much was asked for and refused. -/
theorem denied (sized : 0 < size) (fits : size * need < sizeRange) (answered : ask need heap = some (none, later)) :
    Growth ask size need heap [need] .errNoMem data cap later := by
  refine ⟨?_, fun impossible => (nomatch impossible),
    fun _ => ⟨rfl, .refused answered (.nothing later), Or.inr rfl⟩,
    fun tooMuch => absurd tooMuch (countable sized fits (Nat.le_refl need))⟩
  intro asked inside
  rw [List.mem_singleton.mp inside]
  exact ⟨Nat.le_refl need, fits⟩

/-- What follows and asks for nothing changes nothing of it. -/
theorem stays {last : AlHeap Cell} (growth : Growth ask size need heap made .ok data cap mid)
    (same : last.asked = mid.asked) : Growth ask size need heap made .ok data cap last := by
  refine ⟨growth.exactly, fun _ => ?_, fun impossible => absurd rfl impossible, growth.overflow⟩
  rcases growth.ok rfl with ⟨room, fits, ⟨none_, still⟩ | ⟨ptr, at_, requests, still, came⟩⟩
  · exact ⟨room, fits, Or.inl ⟨none_, same.trans still⟩⟩
  · exact ⟨room, fits, Or.inr ⟨ptr, at_, requests, same.trans still, came⟩⟩

/-- More was granted than is needed. -/
theorem weaken (growth : Growth ask size more heap made .ok data cap later) (less : need ≤ more) :
    Growth ask size need heap made .ok data cap later := by
  rcases growth.ok rfl with ⟨room, fits, came⟩
  refine ⟨?_, fun _ => ⟨less.trans room, fits, came⟩, fun impossible => absurd rfl impossible, ?_⟩
  · intro asked inside
    exact ⟨less.trans (growth.exactly asked inside).1, (growth.exactly asked inside).2⟩
  · intro tooMuch
    have bytes : size * need ≤ size * more := Nat.mul_le_mul_left size less
    exact growth.overflow (by omega)

/-- More than is needed could not be had, and then what is needed was asked for. -/
theorem retry (first : Growth ask size more heap made st was old mid) (failed : st ≠ .ok) (less : need ≤ more)
    {final : Status} (second : Growth ask size need mid others final data cap later)
    (asks : final = .ok -> others ≠ []) :
    Growth ask size need heap (made ++ others) final data cap later := by
  rcases first.refused failed with ⟨_, requests, _⟩
  constructor
  · intro asked inside
    rcases List.mem_append.mp inside with before | after
    · exact ⟨less.trans (first.exactly asked before).1, (first.exactly asked before).2⟩
    · exact second.exactly asked after
  · intro ok
    rcases second.ok ok with ⟨room, fits, ⟨none_, _⟩ | ⟨ptr, last, asked, same, here, at_⟩⟩
    · exact absurd none_ (asks ok)
    · refine ⟨room, fits, Or.inr ⟨ptr, last, requests.append asked, same, ?_, at_⟩⟩
      rw [List.getLast?_append, here]
      rfl
  · intro wrong
    rcases second.refused wrong with ⟨noMem, asked, why⟩
    refine ⟨noMem, requests.append asked, why.imp_right fun last => ?_⟩
    rw [List.getLast?_append, last]
    rfl
  · intro tooMuch
    rcases second.overflow tooMuch with ⟨noMem, rfl⟩
    have bytes : size * need ≤ size * more := Nat.mul_le_mul_left size less
    exact ⟨noMem, by rw [List.append_nil]; exact (first.overflow (by omega)).2⟩

end Growth

/-! ## The first block -/

section

variable {α R : Type} {elem : Layout} {al : Al} {cap : Nat} {heap : AlHeap (List (Option α))}

/-- The request for the first block of a container. -/
def firstRequest (α : Type) (elem : Layout) (al : Al) (cap : Nat) : Run (AlHeap (List (Option α))) (Option Addr) :=
  alloc al ⟨elem.size * cap, elem.align⟩ (List.replicate cap none)

/-- A constructor fails only where its block could not be had. -/
theorem allows_first {bare : Run (AlHeap (List (Option α))) (Status × Option R)}
    {made : Addr -> Run (AlHeap (List (Option α))) (Status × Option R)}
    (bareOk : Allows bare heap fun result _ => result.1 = .ok)
    (madeOk : forall ptr mid, Allows (made ptr) mid fun result _ => result.1 = .ok) :
    Allows (if cap > 0 then
        match elem.ckdArray cap with
        | none => return (.errNoMem, none)
        | some block => do
            match ← alloc al block (List.replicate cap none) with
            | none => return (.errNoMem, none)
            | some ptr => made ptr
      else bare) heap fun result later =>
        result.1 ≠ .ok -> Refusal (firstRequest α elem al) elem.size cap heap later := by
  by_cases some_ : cap > 0
  · rw [if_pos some_]
    rcases elem.ckdArray_cases cap with ⟨none_, overflow⟩ | ⟨layout, _⟩
    · simp only [none_, allows_pure]
      exact fun _ => ⟨[], .nothing heap, Or.inl overflow⟩
    · simp only [layout, allows_bind]
      intro answer mid answered
      cases answer with
      | none =>
          rw [allows_pure]
          exact fun _ => ⟨[cap], .refused answered (.nothing mid), Or.inr rfl⟩
      | some ptr => exact (madeOk ptr mid).mono fun _ _ ok failed => absurd ok failed
  · rw [if_neg some_]
    exact bareOk.mono fun _ _ ok failed => absurd ok failed

/-- What is copied to the first block asks for nothing more. -/
theorem allows_written {run : Run (AlHeap (List (Option α))) (Status × Option R)}
    {next : Status × Option R -> Run (AlHeap (List (Option α))) (Status × Option R)}
    (first : Allows run heap fun result later =>
      result.1 ≠ .ok -> Refusal (firstRequest α elem al) elem.size cap heap later)
    (stops : forall st out, st ≠ .ok -> next (st, out) = pure (st, none))
    (written : forall out mid, Allows (next (.ok, out)) mid fun result _ => result.1 = .ok) :
    Allows (run >>= next) heap fun result later =>
      result.1 ≠ .ok -> Refusal (firstRequest α elem al) elem.size cap heap later := by
  rw [allows_bind]
  refine first.mono ?_
  rintro ⟨st, out⟩ mid refused
  by_cases ok : st = .ok
  · subst ok
    exact (written out mid).mono fun _ _ same failed => absurd same failed
  · rw [stops st out ok, allows_pure]
    exact refused

end

/-! ## Containers that grow -/

/-- A container as its growth sees it: `len` elems of `size` bytes in a block for `cap` of them at `data`, and the
request for a block in place of it. -/
structure Grower (Cell R : Type) where
  size : R -> Nat
  len : R -> Nat
  cap : R -> Nat
  data : R -> Option Addr
  ask : R -> Nat -> Run (AlHeap Cell) (Option Addr)

namespace Grower

/-- The block has a size that can be counted. -/
structure Sized {Cell R : Type} (grower : Grower Cell R) (obj : R) : Prop where
  size : 0 < grower.size obj
  fits : grower.size obj * grower.cap obj < sizeRange
  load : grower.len obj ≤ grower.cap obj

/-- The container has asked for room for so many elems, or for none if it had the room. -/
def Grown {Cell R : Type} (grower : Grower Cell R) (self : R) (need : Nat) (heap : AlHeap Cell) (st : Status) (after : R)
    (later : AlHeap Cell) : Prop :=
  exists made, Growth (grower.ask self) (grower.size self) need heap made st (grower.data after) (grower.cap after) later ∧
    (grower.len self < need -> need ≤ grower.cap self -> made = [])

/-- There was no room for more elems than there are, and none could be had. -/
structure Denied {Cell R : Type} (grower : Grower Cell R) (obj : R) (need : Nat) (heap later : AlHeap Cell) : Prop where
  short : grower.len obj < need -> grower.cap obj < need
  asked : Refusal (grower.ask obj) (grower.size obj) need heap later

/-- What comes of a request for another block: if it fails the container is what it was. -/
def Settles {Cell R : Type} (grower : Grower Cell R) (self : R) (newCap : Nat) (heap : AlHeap Cell)
    (run : Run (AlHeap Cell) (Status × R)) : Prop :=
  Allows run heap fun result later => (result.1 ≠ .ok -> result.2 = self) ∧
    exists made, (result.1 = .ok -> made ≠ []) ∧
      Growth (grower.ask self) (grower.size self) newCap heap made result.1 (grower.data result.2) (grower.cap result.2)
        later

variable {Cell R : Type} {grower : Grower Cell R} {self grown after : R} {need count newLen : Nat} {st : Status}
  {heap mid later : AlHeap Cell} {run : Run (AlHeap Cell) (Status × R)}

/-- Nothing was asked for where there is room. -/
theorem Sized.roomy (sized : grower.Sized self) (room : need ≤ grower.cap self) (same : later.asked = heap.asked) :
    grower.Grown self need heap .ok self later :=
  ⟨[], Growth.enough sized.size sized.fits room same, fun _ _ => rfl⟩

/-- So much cannot be counted. -/
theorem overflowed (tooMuch : sizeRange ≤ grower.size self * need) : grower.Grown self need heap .errNoMem after heap :=
  ⟨[], Growth.overflowed tooMuch, fun _ _ => rfl⟩

theorem Grown.denied (grows : grower.Grown self need heap st after later) (sized : grower.Sized self)
    (failed : st ≠ .ok) : grower.Denied self need heap later := by
  rcases grows with ⟨made, growth, roomy⟩
  rcases growth.refused failed with ⟨_, requests, why⟩
  refine ⟨fun growing => ?_, made, requests, why⟩
  by_contra room
  have none_ := roomy growing (Nat.le_of_not_lt room)
  have counted := Growth.countable sized.size sized.fits (Nat.le_of_not_lt room)
  rcases why with tooMuch | last
  · exact counted (Or.inr tooMuch)
  · rw [none_] at last
    cases last

/-- What settles asks only where there is not enough room. -/
theorem Settles.grows (settles : grower.Settles self need heap run) (more : grower.cap self < need) :
    Allows run heap fun result later => grower.Grown self need heap result.1 result.2 later := by
  refine settles.mono ?_
  rintro result later ⟨_, made, _, growth⟩
  exact ⟨made, growth, fun _ room => absurd room (Nat.not_le_of_lt more)⟩

/-- By the growth factor, or exactly. -/
theorem allows_eager {settle : R -> Nat -> Run (AlHeap Cell) (Status × R)}
    (settles : forall (mid : AlHeap Cell) newCap, grower.cap self < newCap ->
      grower.Settles self newCap mid (settle self newCap))
    (more : grower.cap self < newLen) (eager : Nat) :
    Allows (do
      if eager > newLen then
        let (st, grown) ← settle self eager
        if st = .ok then
          return (st, grown)
        settle grown newLen
      else
        settle self newLen) heap fun result later => grower.Grown self newLen heap result.1 result.2 later := by
  by_cases larger : eager > newLen
  · simp only [if_pos larger, allows_bind]
    refine (settles heap eager (Nat.lt_trans more larger)).mono ?_
    rintro ⟨st, grown⟩ mid ⟨still, made, _, first⟩
    by_cases ok : st = .ok
    · subst ok
      simp only [if_true, allows_pure]
      exact ⟨made, first.weaken (Nat.le_of_lt larger), fun _ room => absurd room (Nat.not_le_of_lt more)⟩
    · have same : grown = self := still ok
      subst same
      simp only [if_neg ok]
      refine (settles mid newLen more).mono ?_
      rintro ⟨final, after⟩ later ⟨_, others, asks, second⟩
      refine ⟨made ++ others, first.retry ok (Nat.le_of_lt larger) second asks, ?_⟩
      exact fun _ room => absurd room (Nat.not_le_of_lt more)
  · rw [if_neg larger]
    exact (settles heap newLen more).grows more

/-- Room for one more: it is there, or the last size there is has been reached, or the container grows. -/
theorem allows_reserveOne (sized : grower.Sized self)
    (grows : Allows run heap fun result later =>
      grower.Grown self (grower.cap self + 1) heap result.1 result.2 later) :
    Allows (if grower.len self < grower.cap self then return (.ok, self) else if grower.cap self = sizeMax then
      return (.errNoMem, self) else run) heap fun result later =>
        grower.Grown self (grower.len self + 1) heap result.1 result.2 later := by
  by_cases room : grower.len self < grower.cap self
  · rw [if_pos room, allows_pure]
    exact sized.roomy room rfl
  · have full : grower.len self = grower.cap self := Nat.le_antisymm sized.load (Nat.le_of_not_lt room)
    rw [if_neg room, full]
    by_cases last : grower.cap self = sizeMax
    · rw [if_pos last, allows_pure]
      have elems : grower.cap self + 1 ≤ grower.size self * (grower.cap self + 1) :=
        Nat.le_mul_of_pos_left _ sized.size
      have whole : grower.cap self + 1 = sizeRange := by
        rw [last]
        rfl
      exact overflowed (by omega)
    · rw [if_neg last]
      exact grows

/-- It ended well, keeps the block and asked for nothing. -/
def Fills (grower : Grower Cell R) (grown : R) (mid : AlHeap Cell) (run : Run (AlHeap Cell) (Status × R)) : Prop :=
  Allows run mid fun result later => result.1 = .ok ∧ grower.data result.2 = grower.data grown ∧
    grower.cap result.2 = grower.cap grown ∧ later.asked = mid.asked

/-- What fills the room that was made changes nothing of what was asked for. -/
theorem Grown.onward (grew : grower.Grown self need heap st grown mid) (stops : st ≠ .ok -> run = pure (st, grown))
    (fills : st = .ok -> grower.Fills grown mid run) :
    Allows run mid fun result later => grower.Grown self need heap result.1 result.2 later := by
  by_cases ok : st = .ok
  · refine (fills ok).mono ?_
    rintro ⟨_, after⟩ later ⟨rfl, sameData, sameCap, same⟩
    rcases grew with ⟨made, growth, roomy⟩
    subst ok
    refine ⟨made, ?_, roomy⟩
    rw [sameData, sameCap]
    exact growth.stays same
  · rw [stops ok, allows_pure]
    exact grew

theorem allows_then {next : Status × R -> Run (AlHeap Cell) (Status × R)}
    (grows : Allows run heap fun result later => grower.Grown self need heap result.1 result.2 later)
    (stops : forall st grown, st ≠ .ok -> next (st, grown) = pure (st, grown))
    (fills : forall (grown : R) (mid : AlHeap Cell), grower.Fills grown mid (next (.ok, grown))) :
    Allows (run >>= next) heap fun result later => grower.Grown self need heap result.1 result.2 later := by
  rw [allows_bind]
  refine grows.mono ?_
  rintro ⟨st, grown⟩ mid grew
  refine grew.onward (stops st grown) ?_
  rintro rfl
  exact fills grown mid

/-- Elems are inserted, if there are any, where a gap was opened for them. -/
theorem allows_insertRaw (sized : grower.Sized self) {next : Status × R -> Run (AlHeap Cell) (Status × R)}
    (opens : Allows run heap fun result later =>
      grower.Grown self (grower.len self + count) heap result.1 result.2 later)
    (stops : forall st grown, st ≠ .ok -> next (st, grown) = pure (st, grown))
    (fills : forall (grown : R) (mid : AlHeap Cell), grower.Fills grown mid (next (.ok, grown))) :
    Allows (if count = 0 then return (.ok, self) else run >>= next) heap fun result later =>
      grower.Grown self (grower.len self + count) heap result.1 result.2 later := by
  by_cases nothing : count = 0
  · rw [if_pos nothing, nothing, allows_pure]
    exact sized.roomy sized.load rfl
  · rw [if_neg nothing]
    exact allows_then opens stops fills

/-- An operation hands out something besides. -/
theorem allows_handing {H : Type} {handed : H}
    (grows : Allows run heap fun result later => grower.Grown self need heap result.1 result.2 later) :
    Allows (do
      let (st, after) ← run
      return (st, handed, after)) heap fun result later =>
        grower.Grown self need heap result.1 result.2.2 later := by
  simp only [allows_bind, allows_pure]
  exact grows

end Grower
end TerseDsa
