import TerseDsa.Containers.Model

namespace TerseDsa

open Foundation Run

/-!
# Every block is given back as it was made

In every state that a program can reach, each live block is that of one
variable, under the allocator and the size that this variable would give it
back with.  So no call that is allowed goes wrong, whatever the allocators
answer: each block that is released or resized is the live one of its
container, under its own tag.
-/

namespace Containers

open Objects

variable {α C : Type} {zero : α} {s later : Containers α} {addr : Addr} {owner : Family × Nat}

/-! ## Raw blocks -/

/-- A raw block, or none. -/
def RawKept (blocks : Blocks AlTag (List (Option α))) (raw : Raw) (elems : List α) : Prop :=
  (raw = Raw.nothing ∧ elems = []) ∨ Vec.Holds blocks raw.asVec elems

/-- A caller owns the raw blocks it keeps. -/
@[reducible] def rawKind : Kind Raw (List α) AlTag (List (Option α)) where
  owned raw _ := raw.elems.data.toList
  Holds := RawKept
  live := by
    intro blocks raw elems addr kept mine
    rcases kept with ⟨rfl, _⟩ | holds
    · exact absurd mine List.not_mem_nil
    · exact Vec.Holds.live holds mine
  congr := by
    intro blocks other raw elems kept agree
    exact kept.imp_right fun holds => Vec.Holds.congr holds agree

theorem RawKept.holds {blocks : Blocks AlTag (List (Option α))} {raw : Raw} {elems : List α}
    (kept : RawKept blocks raw elems) (real : raw.al.isSome = true) : Vec.Holds blocks raw.asVec elems := by
  rcases kept with ⟨rfl, _⟩ | holds
  · cases real
  · exact holds

section Raws

variable {others : Blocks AlTag (List (Option α))} {t : RawObjects α} {abs : Nat -> List α} {out : Nat}

/-- A block is allocated for the caller, or nothing has changed. -/
theorem ends_allocRaw (among : Among rawKind others t abs) {vals : List α} {cap : Nat} {elem : Layout} {al : Al}
    (bare : (t.objs out).elems.data = none) (isType : elem.isType = true) (real : al.isSome = true)
    (load : vals.length ≤ cap) (some_ : 0 < cap) (fits : elem.size * cap < sizeRange) :
    Ends (RawObjects.allocRaw out vals cap elem al) t fun st later =>
      (exists abs, Among rawKind others later abs) ∧
        (st ≠ .ok -> later.objs = t.objs ∧ later.mem.blocks = t.mem.blocks) := by
  have layout : Span.elemsLayout elem cap = ⟨elem.size * cap, elem.align⟩ := by
    rw [Span.elemsLayout, TerseDsa.wrapMul_eq fits]
  simp only [RawObjects.allocRaw, ends_bind, ends_within, layout]
  apply Owns.ends_alloc real some_
  · intro mid same
    exact (ends_pure _ _ _).mpr ⟨⟨abs, among.unchanged rfl same⟩, fun _ => ⟨rfl, same⟩⟩
  · intro ptr mid owns evolves
    simp only [ends_bind, ends_store, ends_pure]
    have length : (vals.map some ++ List.replicate (cap - vals.length) none).length = cap := by
      rw [List.length_append, List.length_map, List.length_replicate]
      omega
    have held : RawKept mid.blocks ⟨⟨some ptr, vals.length, elem⟩, cap, al⟩ vals :=
      Or.inr ⟨⟨_, real, isType, fits, length, owns⟩, rfl⟩
    refine ⟨⟨_, among.act ?_ held⟩, fun failed => absurd rfl failed⟩
    change Evolves _ _ (t.objs out).elems.data.toList [ptr]
    rw [bare]
    exact evolves

theorem ends_freeRaw (among : Among rawKind others t abs) (real : (t.objs out).al.isSome = true) :
    Ends (RawObjects.freeRaw α out) t fun _ later =>
      later.objs out = Raw.nothing ∧ exists abs, Among rawKind others later abs := by
  have holds := (among.held out).holds real
  rcases holds.cells with ⟨spare, held⟩
  simp only [RawObjects.freeRaw, ends_bind, ends_load, ends_within]
  have layout : Span.elemsLayout (t.objs out).elems.elem (t.objs out).cap =
      ⟨(t.objs out).elems.elem.size * (t.objs out).cap, (t.objs out).elems.elem.align⟩ := Vec.blockLayout_eq held
  rw [layout]
  apply held.owns.ends_dealloc held.real held.size_pos
  intro mid gone
  simp only [ends_store, Function.update_self]
  exact ⟨trivial, _, among.act gone (Or.inl ⟨rfl, rfl⟩)⟩

end Raws

/-! ## Every family among the others -/

/-- What a variable stands for. -/
@[reducible] def Form (α : Type) : Family -> Type
  | .vec | .deque | .arr | .raw => List α
  | .bitset => Subset

/-- How a variable holds what it stands for. -/
@[reducible] def kind (α : Type) : (family : Family) -> Kind family.Obj (Form α family) AlTag (family.Cells α)
  | .vec => Vec.kind
  | .deque => Deque.kind
  | .arr => Arr.kind
  | .raw => rawKind
  | .bitset => BitSet.kind

/-- Every variable is held, and the live blocks are divided among the variables. -/
abbrev Invariant (s : Containers α) (forms : (family : Family) -> Nat -> Form α family) : Prop :=
  Mixed.Invariant (kind α) (Family.sort α) s forms

/-- What a variable stands for that is not initialised. -/
def bare (α : Type) : (family : Family) -> Form α family
  | .vec | .deque | .arr | .raw => []
  | .bitset => Subset.bare 0

theorem start (answers : Nat -> Option Addr) :
    Invariant (initial answers : Containers α) fun family _ => bare α family := by
  apply Mixed.Invariant.start
  · intro family
    cases family <;> exact Or.inl ⟨rfl, rfl⟩
  · intro family
    cases family <;> rfl

/-! ## Calls -/

namespace Invariant

variable {forms : (family : Family) -> Nat -> Form α family} {giver taker family : Family} {from_ to_ : Nat} {β : Type}

/-- A variable of one kind hands its block to one of another kind. -/
theorem handed (invariant : Invariant s forms) (different : giver ≠ taker) {taken : taker.Obj}
    {takenForm : Form α taker} (bare_ : (kind α taker).owned (s.objs taker to_) (forms taker to_) = [])
    (heldTaker : (kind α taker).Holds ((taker.sort α).view s.mem).blocks taken takenForm)
    (same : (kind α taker).owned taken takenForm = (kind α giver).owned (s.objs giver from_) (forms giver from_))
    (alike : forall addr, (taker.sort α).Foreign s.mem.blocks addr -> (giver.sort α).Foreign s.mem.blocks addr) :
    exists after, Invariant ((s.put giver from_ (idle giver)).put taker to_ taken) after := by
  have heldGiver : (kind α giver).Holds ((giver.sort α).view s.mem).blocks (idle giver) (bare α giver) := by
    cases giver <;> exact Or.inl ⟨rfl, rfl⟩
  have emptied : (kind α giver).owned (idle giver) (bare α giver) = [] := by
    cases giver <;> rfl
  apply Mixed.Invariant.handed invariant different bare_ heldGiver emptied heldTaker same
  intro addr mine foreign
  rw [same] at mine
  exact invariant.native giver from_ addr mine (alike addr foreign)

/-- What keeps the objects of a kind held among others, and changes nothing where it fails, does so to all. -/
theorem acted (invariant : Invariant s forms) {run : Run (Objects family.Obj AlTag (family.Cells α)) β}
    {status : β -> Status} (ends : forall others, Among (kind α family) others (s.seen family) (forms family) ->
      Ends run (s.seen family) fun answer later => (exists after, Among (kind α family) others later after) ∧
        (status answer ≠ .ok -> later.objs = s.objs family ∧ later.mem.blocks = (s.seen family).mem.blocks)) :
    Ends (Mixed.on (Family.sort α) family run) s fun answer later => (exists after, Invariant later after) ∧
      (status answer ≠ .ok -> later.objs = s.objs ∧ later.mem.blocks = s.mem.blocks) := by
  have both := Mixed.Invariant.ends_on invariant (fun _ _ => True) fun others among =>
    (ends others among).mono fun _ _ now => ⟨trivial, now.1⟩
  have still := Mixed.Invariant.ends_on_unchanged invariant fun others among =>
    (ends others among).mono fun _ _ now => now.2
  exact (both.and still).mono fun _ _ now => ⟨now.1.2, now.2⟩

/-- A call of one kind succeeds and leaves its objects held, or is refused. -/
theorem settled {Obj Form Cell : Type} {kind : Kind Obj Form AlTag Cell} {others : Blocks AlTag Cell}
    {t later : Objects Obj AlTag Cell} {abs after : Nat -> Form} {st : Status} (among : Among kind others t abs)
    (outcome : (st = .ok ∧ Among kind others later after) ∨
      (st = .errNoMem ∧ later.objs = t.objs ∧ later.mem.blocks = t.mem.blocks)) :
    (exists after, Among kind others later after) ∧
      (st ≠ .ok -> later.objs = t.objs ∧ later.mem.blocks = t.mem.blocks) := by
  rcases outcome with ⟨ok, now⟩ | ⟨_, sameObjs, same⟩
  · exact ⟨⟨_, now⟩, fun failed => absurd ok failed⟩
  · exact ⟨⟨_, among.unchanged sameObjs same⟩, fun _ => ⟨sameObjs, same⟩⟩

/-- Every call ends, whatever the allocators answer, and leaves every variable held; one that fails has changed
nothing. -/
theorem run (invariant : Invariant s forms) (call : Call α C) (allowed : call.Allowed s) :
    Ends (call.run zero) s fun st later => (exists after, Invariant later after) ∧
      (st ≠ .ok -> later.objs = s.objs ∧ later.mem.blocks = s.mem.blocks) := by
  cases call with
  | vec call =>
      simp only [Call.run, ends_bind, ends_pure]
      apply invariant.acted
      intro others among
      apply (Vec.Invariant.run among call allowed).mono
      intro result later outcome
      exact settled among (outcome.imp (And.imp_left (congrArg Prod.fst)) (And.imp_left (congrArg Prod.fst)))
  | deque call =>
      simp only [Call.run, ends_bind, ends_pure]
      apply invariant.acted
      intro others among
      apply (Deque.Invariant.run among call allowed).mono
      intro result later outcome
      exact settled among (outcome.imp_left (And.imp_left (congrArg Prod.fst)))
  | arr call =>
      apply invariant.acted
      intro others among
      exact (Arr.Invariant.run among call allowed).mono fun _ _ => settled among
  | bitset call =>
      apply invariant.acted
      intro others among
      exact (BitSet.Invariant.run among call allowed).mono fun _ _ => settled among
  | vecIntoRaw self out =>
      have holds := Vec.Kept.holds (invariant.held .vec self) allowed.1
      simp only [Call.run, ends_bind, Run.ends_get, Vec.ends_intoRaw holds, Run.ends_set, ends_pure]
      have free : (s.objs .raw out).elems.data.toList = [] := congrArg Option.toList allowed.2
      exact ⟨invariant.handed (by decide) free (Or.inr holds) rfl fun _ => id, fun failed => absurd rfl failed⟩
  | vecInitRaw out raw =>
      have holds := RawKept.holds (invariant.held .raw raw) allowed.1
      simp only [Call.run, ends_bind, Run.ends_get, Run.ends_set, ends_pure]
      apply (Vec.ends_initRaw holds).mpr
      have free : (s.objs .vec out).data.toList = [] := congrArg Option.toList allowed.2
      exact ⟨invariant.handed (by decide) free (Or.inr holds) rfl fun _ => id, fun failed => absurd rfl failed⟩
  | arrIntoRaw self out =>
      have holds := Arr.Kept.holds (invariant.held .arr self) allowed.1
      simp only [Call.run, ends_bind, Run.ends_get, Arr.ends_intoRaw holds, Run.ends_set, ends_pure]
      have free : (s.objs .raw out).elems.data.toList = [] := congrArg Option.toList allowed.2
      exact ⟨invariant.handed (by decide) free (Or.inr holds) rfl fun _ => id, fun failed => absurd rfl failed⟩
  | arrInitRaw out raw =>
      have kept := RawKept.holds (invariant.held .raw raw) allowed.1
      let arr : Arr := ⟨(s.objs .raw raw).elems.data, (s.objs .raw raw).elems.len, (s.objs .raw raw).elems.elem,
        (s.objs .raw raw).al⟩
      have whole : Arr.full arr = (s.objs .raw raw).asVec := by
        simp only [arr, Arr.full, Raw.asVec, allowed.2.1]
      have holds : Arr.Holds (elemCells.view s.mem).blocks arr (forms .raw raw) := by
        rw [Arr.Holds, whole]
        exact kept
      simp only [Call.run, ends_bind, Run.ends_get, Run.ends_set, ends_pure]
      apply (Arr.ends_initRaw holds).mpr
      have free : (s.objs .arr out).data.toList = [] := congrArg Option.toList allowed.2.2
      exact ⟨invariant.handed (by decide) free (Or.inr holds) rfl fun _ => id, fun failed => absurd rfl failed⟩
  | rawAlloc out vals cap elem al =>
      apply invariant.acted
      intro others among
      exact ends_allocRaw among allowed.1 allowed.2.1 allowed.2.2.1 allowed.2.2.2.1 allowed.2.2.2.2.1 allowed.2.2.2.2.2
  | rawFree raw =>
      simp only [Call.run, ends_bind, ends_pure]
      have freed : Ends (Mixed.on (Family.sort α) .raw (RawObjects.freeRaw α raw)) s _ :=
        invariant.acted fun others among => (ends_freeRaw among allowed).mono fun _ _ now => ⟨now.2, absurd rfl⟩
      exact freed.mono fun _ _ now => ⟨now.1, absurd rfl⟩

/-- A variable that is no longer initialised has no block. -/
theorem cleared (invariant : Invariant s forms) {run : Run (Objects family.Obj AlTag (family.Cells α)) β} {var : Nat}
    (ends : forall others, Among (kind α family) others (s.seen family) (forms family) ->
      Ends run (s.seen family) fun _ later =>
        later.objs var = idle family ∧ exists after, Among (kind α family) others later after) :
    Ends (Mixed.on (Family.sort α) family run) s fun _ later => block later (family, var) = none := by
  apply (Mixed.Invariant.ends_on invariant (fun _ objs => objs var = idle family) ends).mono
  rintro answer later ⟨gone, _⟩
  cases family <;> simp only [block, gone, idle] <;> rfl

/-- Who gives up a variable has its block no more. -/
theorem givenBack (invariant : Invariant s forms) (allowed : (Call.giveBack owner : Call α C).Allowed s) :
    Ends ((Call.giveBack owner : Call α C).run zero) s fun _ later => block later owner = none := by
  rcases owner with ⟨family, var⟩
  cases family with
  | vec =>
      simp only [Call.giveBack, Call.run, ends_bind, ends_pure]
      apply invariant.cleared
      intro others among
      simp only [Vec.Call.run, ends_bind, ends_load, ends_within]
      apply (Objects.Among.released among Vec.sound var).mono
      rintro after later ⟨rfl, now⟩
      simp only [ends_store, ends_pure, Function.update_self]
      exact ⟨rfl, _, now⟩
  | deque =>
      simp only [Call.giveBack, Call.run, ends_bind, ends_pure]
      apply invariant.cleared
      intro others among
      simp only [Deque.Call.run, ends_bind, ends_load, ends_within]
      apply (Objects.Among.released among Deque.sound var).mono
      rintro after later ⟨rfl, now⟩
      simp only [ends_store, ends_pure, Function.update_self]
      exact ⟨rfl, _, now⟩
  | arr =>
      simp only [Call.giveBack, Call.run]
      apply invariant.cleared
      intro others among
      simp only [Arr.Call.run, ends_bind, ends_load, ends_within]
      apply (Objects.Among.released among Arr.sound var).mono
      rintro after later ⟨rfl, now⟩
      simp only [ends_store, ends_pure, Function.update_self]
      exact ⟨rfl, _, now⟩
  | raw =>
      simp only [Call.giveBack, Call.run, ends_bind, ends_pure]
      apply invariant.cleared
      exact fun others among => ends_freeRaw among allowed
  | bitset =>
      simp only [Call.giveBack, Call.run]
      apply invariant.cleared
      intro others among
      simp only [BitSet.Call.run, ends_bind, ends_load, ends_within]
      apply (Objects.Among.released among BitSet.sound var).mono
      rintro after later ⟨rfl, now⟩
      simp only [ends_store, ends_pure, Function.update_self]
      exact ⟨rfl, _, now⟩

end Invariant

/-! ## Blocks -/

theorem tag_view {Cell Sub : Type} (sort : CellSort Cell Sub) (heap : Heap AlTag Cell) (addr : Addr) :
    ((sort.view heap).blocks addr).map Block.tag = (heap.blocks addr).map Block.tag := by
  cases here : heap.blocks addr with
  | none => simp only [CellSort.view, here, Option.map_none]
  | some block => simp only [CellSort.view, here, Option.map_some]

theorem tag_of_owns {Cell : Type} {blocks : Blocks AlTag Cell} {al : Al} {elem : Layout} {ptr : Option Addr}
    {count : Nat} {cell : Cell} (owns : Owns blocks al elem ptr count cell) (mine : ptr = some addr) :
    (blocks addr).map Block.tag = some (al, ⟨elem.size * count, elem.align⟩) := by
  rcases owns with ⟨none_, _⟩ | ⟨other, at_, _, there⟩
  · rw [mine] at none_
    cases none_
  · rw [mine, Option.some_inj] at at_
    rw [at_, there]
    rfl

theorem tag_of_vec {blocks : Blocks AlTag (List (Option α))} {vec : Vec} {elems : List α}
    (holds : Vec.Holds blocks vec elems) (mine : vec.data = some addr) :
    (blocks addr).map Block.tag = some (vec.al, ⟨vec.elem.size * vec.cap, vec.elem.align⟩) := by
  rcases holds.cells with ⟨spare, held⟩
  exact tag_of_owns held.owns mine

namespace Invariant

variable {forms : (family : Family) -> Nat -> Form α family}

/-- The blocks of the invariant are those of the variables. -/
theorem owned_eq (s : Containers α) (forms : (family : Family) -> Nat -> Form α family) (owner : Family × Nat) :
    Mixed.owned (kind α) s forms owner = (block s owner).toList := by
  rcases owner with ⟨family, var⟩
  cases family <;> rfl

/-- A block is under the tag of the variable whose block it is. -/
theorem tagged (invariant : Invariant s forms) (mine : block s owner = some addr) :
    (s.mem.blocks addr).map Block.tag = some (tag s owner) := by
  rcases owner with ⟨family, var⟩
  have held := invariant.held family var
  rw [← tag_view (family.sort α) s.mem addr]
  cases family with
  | vec =>
      rcases held with ⟨unset, _⟩ | holds
      · rw [block, unset] at mine
        cases mine
      · exact tag_of_vec holds mine
  | deque =>
      rcases held with ⟨unset, _⟩ | holds
      · rw [block, unset] at mine
        cases mine
      · rcases Deque.Holds.ring holds with ⟨view, ring, _⟩
        rcases ring.block addr mine with ⟨slots, there, _⟩
        rw [there]
        rfl
  | arr =>
      rcases held with ⟨unset, _⟩ | holds
      · rw [block, unset] at mine
        cases mine
      · exact tag_of_vec holds mine
  | raw =>
      rcases held with ⟨unset, _⟩ | holds
      · rw [block, unset] at mine
        cases mine
      · exact tag_of_vec holds mine
  | bitset =>
      rcases held with ⟨unset, _⟩ | ⟨words, held⟩
      · rw [block, unset] at mine
        cases mine
      · exact tag_of_owns held.rep.block mine

end Invariant

theorem Reaches.invariant (reaches : Reaches C zero s) : exists forms, Invariant s forms := by
  induction reaches with
  | start answers => exact ⟨_, Containers.start answers⟩
  | call before call allowed ran ih =>
      rcases ih with ⟨forms, invariant⟩
      exact ((invariant.run call allowed).of_eq ran).1

/-- Whatever was called before and whatever the allocators answered: no call that is allowed
goes wrong; a block is under the allocator, the size and the alignment that its variable would
give it back with, is no other variable's, and is no longer its own once the variable is given
up; and nothing else is live. -/
theorem Reaches.gives_back (reaches : Reaches C zero s) :
    (forall call : Call α C, call.Allowed s -> Ends (call.run zero) s fun _ later => Reaches C zero later) ∧
    (forall owner addr, block s owner = some addr -> (s.mem.blocks addr).map Block.tag = some (tag s owner)) ∧
    (forall owner other addr, block s owner = some addr -> block s other = some addr -> owner = other) ∧
    (forall owner, (Call.giveBack owner : Call α C).Allowed s ->
      Ends ((Call.giveBack owner : Call α C).run zero) s fun _ later => block later owner = none) ∧
    ((forall owner, block s owner = none) -> forall addr, s.mem.blocks addr = none) := by
  rcases reaches.invariant with ⟨forms, invariant⟩
  refine ⟨?_, fun _ _ => invariant.tagged, ?_, fun _ => invariant.givenBack, ?_⟩
  · intro call allowed
    rcases invariant.run call allowed with ⟨st, later, ran, _⟩
    exact ⟨st, later, ran, reaches.call call allowed ran⟩
  · intro owner other addr mine also
    apply invariant.division.apart owner other addr
    · rw [Invariant.owned_eq, mine]
      exact List.mem_singleton_self addr
    · rw [Invariant.owned_eq, also]
      exact List.mem_singleton_self addr
  · intro none_ addr
    by_contra alive
    rcases invariant.division.covered addr alive with ⟨owner, inside⟩
    rw [Invariant.owned_eq, none_] at inside
    exact List.not_mem_nil inside

/-! ## A block that changes hands -/

/-- The state after a call, if it ended. -/
def Call.after (call : Call Nat Unit) (s : Containers Nat) : Containers Nat := ((call.run 0 s).map Prod.snd).getD s

/-- A vec of 1, 2, 3 on the first allocator gives its block away, and an arr takes it over. -/
def handedOver : Containers Nat :=
  (Call.arrInitRaw 0 0).after ((Call.vecIntoRaw 0 0).after
    ((Call.vec (.make 0 (.fromData [1, 2, 3] ⟨4, 4⟩ (some 0)))).after (initial some)))

theorem handedOver_reaches : Reaches Unit 0 handedOver := by
  have made := (Reaches.start some : Reaches Unit (0 : Nat) _).call
    (.vec (.make 0 (.fromData [1, 2, 3] ⟨4, 4⟩ (some 0)))) ⟨rfl, by decide, rfl⟩ rfl
  have given := made.call (.vecIntoRaw 0 0) ⟨rfl, rfl⟩ rfl
  exact given.call (.arrInitRaw 0 0) ⟨rfl, rfl, rfl⟩ rfl

theorem Reaches.gives_back_handedOver :
    block handedOver (.arr, 0) = some 0 ∧ (handedOver.mem.blocks 0).map Block.tag = some (some 0, ⟨12, 4⟩) :=
  ⟨rfl, (Reaches.gives_back handedOver_reaches).2.1 (.arr, 0) 0 rfl⟩

end Containers
end TerseDsa
