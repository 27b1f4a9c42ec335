import TerseDsa.Alloc.Serving
import Mathlib.Logic.Relation

namespace TerseDsa

open Foundation Run

/-!
# What an allocator is for

To a client, memory is a list of blocks that have nothing to do with each other:
each keeps what the client wrote into it, whatever happens to the others, until
it is given back, and one that is resized keeps its first bytes.  This abstract
heap has no addresses in it.  A client of any allocator that meets the contract
of its hooks sees such a heap, whichever wrappers it calls in whichever order.
-/

/-- A block as its owner sees it. -/
structure Cell where
  layout : Layout
  bytes : List Byte
  sized : bytes.length = layout.size

namespace Cell

@[ext] theorem ext {left right : Cell} (layout : left.layout = right.layout)
    (bytes : left.bytes = right.bytes) : left = right := by
  cases left
  cases right
  cases layout
  cases bytes
  rfl

/-- A block of zeros. -/
def zeroed (layout : Layout) : Cell := ⟨layout, List.replicate layout.size 0, List.length_replicate⟩

/-- One byte was written. -/
def put (cell : Cell) (offset : Nat) (byte : Byte) : Cell :=
  ⟨cell.layout, cell.bytes.set offset byte, List.length_set.trans cell.sized⟩

/-- The block at its new size: it starts with the same bytes. -/
structure Resized (cell : Cell) (newSize : Nat) (later : Cell) : Prop where
  layout : later.layout = ⟨newSize, cell.layout.align⟩
  bytes : forall offset, offset < min cell.layout.size newSize -> later.bytes[offset]? = cell.bytes[offset]?

/-- What memory has at a block. -/
def at_ (bytes : Bytes) (block : Nat × Layout) : Cell where
  layout := block.2
  bytes := (List.range block.2.size).map fun offset => bytes (block.1 + offset)
  sized := by rw [List.length_map, List.length_range]

variable {before later : Bytes} {block : Nat × Layout} {offset : Nat}

theorem at_getElem? (low : offset < block.2.size) :
    (at_ before block).bytes[offset]? = some (before (block.1 + offset)) := by
  rw [at_, List.getElem?_map, List.getElem?_range low, Option.map_some]

/-- A block whose bytes are as they were looks as it did. -/
theorem at_congr {live : Set (Nat × Layout)} (intact : Intact live before later) (inside : block ∈ live) :
    at_ later block = at_ before block := by
  refine Cell.ext rfl (List.map_congr_left fun offset low => ?_)
  apply intact block inside
  exact ⟨Nat.le_add_right _ _, Nat.add_lt_add_left (List.mem_range.mp low) _⟩

theorem at_fill (bytes : Bytes) (block : Nat × Layout) (offset : Nat) (byte : Byte) :
    at_ (bytes.fill (block.1 + offset) 1 byte) block = (at_ bytes block).put offset byte := by
  refine Cell.ext rfl (List.ext_getElem? fun i => ?_)
  change _ = (((List.range block.2.size).map fun offset => bytes (block.1 + offset)).set offset byte)[i]?
  rw [List.getElem?_set, List.length_map, List.length_range]
  by_cases low : i < block.2.size
  · rw [at_getElem? low, List.getElem?_map, List.getElem?_range low, Option.map_some]
    by_cases here : offset = i
    · subst here
      rw [if_pos rfl, if_pos low]
      exact congrArg some (if_pos ⟨Nat.le_refl _, Nat.lt_succ_self _⟩)
    · rw [if_neg here]
      refine congrArg some (if_neg fun covers => ?_)
      unfold Region.Covers Region.stop at covers
      dsimp only at covers
      omega
  · have beyond : block.2.size ≤ i := Nat.le_of_not_lt low
    have short : ((List.range block.2.size).map fun offset => bytes (block.1 + offset)).length ≤ i := by
      rw [List.length_map, List.length_range]
      exact beyond
    rw [List.getElem?_eq_none short, List.getElem?_eq_none (by rw [Cell.sized]; exact beyond)]
    by_cases here : offset = i
    · subst here
      rw [if_pos rfl, if_neg low]
    · rw [if_neg here]

end Cell

/-- An allocator's state, and the blocks that a client holds of it. -/
structure Client (S : Type) where
  state : S
  held : List (Nat × Layout)

namespace Client

variable {S α : Type}

/-- What a client may do, with the wrappers and with the bytes of a block of its own. -/
inductive Act where
  | alloc (layout : Layout)
  | allocZeroed (layout : Layout)
  | resize (k newSize : Nat)
  | remap (k newSize : Nat)
  | realloc (k newSize : Nat)
  | reallocNull (align newSize : Nat)
  | dealloc (k : Nat)
  | write (k offset : Nat) (byte : Byte)

/-- Call the allocator. -/
def call (run : Run S α) : Run (Client S) α :=
  zoom Client.state (fun state client => { client with state := state }) run

/-- Note what was handed out. -/
def enter (ptr : Option Addr) (layout : Layout) : Run (Client S) Unit :=
  match ptr with
  | none => return ()
  | some addr => modify fun client => { client with held := client.held ++ [(addr, layout)] }

/-- The block is now another one. -/
def replace (k : Nat) (block : Nat × Layout) : Run (Client S) Unit :=
  modify fun client => { client with held := client.held.set k block }

/-- The block is held no more. -/
def drop (k : Nat) : Run (Client S) Unit := modify fun client => { client with held := client.held.eraseIdx k }

def lookUp (k : Nat) : Run (Client S) (Nat × Layout) := do
  let client ← get
  demand client.held[k]?

namespace Act

variable [HasBytes S] (al : AlVtable S)

def run : Act -> Run (Client S) Unit
  | alloc layout => do
      let ptr ← call (al.allocate layout)
      enter ptr layout
  | allocZeroed layout => do
      let ptr ← call (al.allocateZeroed layout)
      enter ptr layout
  | resize k newSize => do
      let block ← lookUp k
      if ← call (al.resizeInPlace block.1 block.2 newSize) then
        replace k (block.1, ⟨newSize, block.2.align⟩)
  | remap k newSize => do
      let block ← lookUp k
      match ← call (al.moveByHook block.1 block.2 newSize) with
      | none => return ()
      | some addr => replace k (addr, ⟨newSize, block.2.align⟩)
  | realloc k newSize => do
      let block ← lookUp k
      match ← call (al.reallocate (some block.1) block.2 newSize) with
      | none => if newSize = 0 then drop k
      | some addr => replace k (addr, ⟨newSize, block.2.align⟩)
  | reallocNull align newSize => do
      let ptr ← call (al.reallocate none ⟨0, align⟩ newSize)
      enter ptr ⟨newSize, align⟩
  | dealloc k => do
      let block ← lookUp k
      call (al.deallocate (some block.1) block.2)
      drop k
  | write k offset byte => do
      let block ← lookUp k
      call (AlVtable.setBytes (block.1 + offset) 1 byte)

end Act

/-! ## The abstract heap -/

/-- What a client keeps to, where the allocator was built to give certain alignments. -/
def Act.Allowed (gives : Nat -> Prop) (cells : List Cell) : Act -> Prop
  | alloc layout | allocZeroed layout => layout.Asked ∧ gives layout.align
  | resize k newSize | remap k newSize => k < cells.length ∧ 0 < newSize ∧ newSize < sizeRange
  | realloc k newSize => k < cells.length ∧ newSize < sizeRange
  | reallocNull align newSize => Layout.Asked ⟨newSize, align⟩ ∧ gives align
  | dealloc k => k < cells.length
  | write k offset _ => exists cell, cells[k]? = some cell ∧ offset < cell.layout.size

/-- The act may come to nothing. -/
def Act.MayRefuse : Act -> Prop
  | realloc _ newSize => 0 < newSize
  | dealloc _ | write _ _ _ => False
  | _ => True

/-- The act gives a block another size. -/
def Act.Sizes (k newSize : Nat) (act : Act) : Prop :=
  act = .resize k newSize ∨ act = .remap k newSize ∨ act = .realloc k newSize

/-- What an act does to the abstract heap. -/
inductive Step (cells : List Cell) : Act -> List Cell -> Prop
  | refused {act : Act} (may : act.MayRefuse) : Step cells act cells
  | granted (cell : Cell) (some_ : 0 < cell.layout.size) : Step cells (.alloc cell.layout) (cells ++ [cell])
  | zeroed (layout : Layout) (some_ : 0 < layout.size) :
      Step cells (.allocZeroed layout) (cells ++ [Cell.zeroed layout])
  | fromNull (cell : Cell) (some_ : 0 < cell.layout.size) :
      Step cells (.reallocNull cell.layout.align cell.layout.size) (cells ++ [cell])
  | resized {act : Act} {k newSize : Nat} {cell later : Cell} (at_ : cells[k]? = some cell)
      (some_ : 0 < newSize) (resized : cell.Resized newSize later) (sizes : act.Sizes k newSize) :
      Step cells act (cells.set k later)
  | emptied (k : Nat) : Step cells (.realloc k 0) (cells.eraseIdx k)
  | freed (k : Nat) : Step cells (.dealloc k) (cells.eraseIdx k)
  | written {k : Nat} {cell : Cell} (at_ : cells[k]? = some cell) (offset : Nat) (byte : Byte) :
      Step cells (.write k offset byte) (cells.set k (cell.put offset byte))

/-- The abstract heap that a client sees. -/
def view [HasBytes S] (client : Client S) : List Cell := client.held.map (Cell.at_ (HasBytes.bytes client.state))

/-! ## The simulation -/

/-- The client's blocks are live and lie apart. -/
structure Sound (ledger : Ledger S) (client : Client S) : Prop where
  good : ledger.good client.state
  live : forall block, block ∈ client.held -> block ∈ ledger.live client.state
  apart : client.held.Pairwise fun left right => (Parent.region left).Apart (Parent.region right)
  asked : forall block, block ∈ client.held -> block.2.Asked ∧ 0 < block.2.size ∧
    ledger.gives block.2.align ∧ block.2.align ∣ block.1

variable {ledger : Ledger S} {able : S -> Prop} {al : AlVtable S} {client : Client S} {held : List (Nat × Layout)}
  {before later : S} {layout old : Layout} {ptr newSize k : Nat} {block : Nat × Layout}

theorem ends_call {run : Run S α} {post : α -> Client S -> Prop} :
    Ends (call run) client post <->
      Ends run client.state fun a state => post a { client with state := state } :=
  ends_zoom

theorem ends_lookUp {post : Nat × Layout -> Client S -> Prop} (at_ : client.held[k]? = some block) :
    Ends (lookUp k) client post <-> post block client := by
  simp only [lookUp, ends_bind, Run.ends_get, at_, ends_demand_some]

namespace Sound

theorem nil (good : ledger.good before) : Sound ledger ⟨before, []⟩ :=
  ⟨good, fun _ inside => absurd inside List.not_mem_nil, List.Pairwise.nil,
    fun _ inside => absurd inside List.not_mem_nil⟩

theorem perm {others : List (Nat × Layout)} (sound : Sound ledger ⟨before, held⟩) (perm : held.Perm others) :
    Sound ledger ⟨before, others⟩ where
  good := sound.good
  live block inside := sound.live block (perm.mem_iff.mpr inside)
  apart := perm.pairwise sound.apart fun apart => Region.Apart.symm apart
  asked block inside := sound.asked block (perm.mem_iff.mpr inside)

/-- The block at `k`, and the others. -/
theorem foremost (sound : Sound ledger ⟨before, held⟩) (at_ : held[k]? = some block) :
    Sound ledger ⟨before, block :: held.eraseIdx k⟩ := by
  rcases List.getElem?_eq_some_iff.mp at_ with ⟨low, rfl⟩
  exact sound.perm (List.getElem_cons_eraseIdx_perm low).symm

/-- What holds of a live block besides the others. -/
theorem cons (sound : Sound ledger ⟨before, held⟩) (fresh : Fresh {block | block ∈ held} ptr layout)
    (live : (ptr, layout) ∈ ledger.live before) (asked : layout.Asked) (some_ : 0 < layout.size)
    (gives : ledger.gives layout.align) : Sound ledger ⟨before, (ptr, layout) :: held⟩ where
  good := sound.good
  live := List.forall_mem_cons.mpr ⟨live, sound.live⟩
  apart := List.pairwise_cons.mpr ⟨fresh.apart, sound.apart⟩
  asked := List.forall_mem_cons.mpr ⟨⟨asked, some_, gives, fresh.aligned⟩, sound.asked⟩

/-- The blocks behind the first one are other blocks. -/
theorem tail_ne (sound : Sound ledger ⟨before, block :: held⟩) : forall other, other ∈ held -> other ≠ block := by
  have some_ := (sound.asked block List.mem_cons_self).2.1
  rintro other inside rfl
  have away := (List.pairwise_cons.mp sound.apart).1 other inside
  unfold Region.Apart Parent.region Region.stop at away
  dsimp only at away
  omega

/-- The state has changed, and the blocks are live still. -/
theorem moved (sound : Sound ledger ⟨before, held⟩) (good : ledger.good later)
    (live : forall block, block ∈ held -> block ∈ ledger.live later) : Sound ledger ⟨later, held⟩ :=
  ⟨good, live, sound.apart, sound.asked⟩

theorem tail (sound : Sound ledger ⟨before, block :: held⟩) : Sound ledger ⟨before, held⟩ :=
  ⟨sound.good, (List.forall_mem_cons.mp sound.live).2, (List.pairwise_cons.mp sound.apart).2,
    (List.forall_mem_cons.mp sound.asked).2⟩

end Sound

/-! ## What each outcome of a wrapper does to the view -/

variable [HasBytes S]

/-- The blocks but the one at `k` are as they were; what that one looks like does not matter. -/
theorem view_set {first second : Bytes} {look : Cell}
    (same : forall other, other ∈ held.eraseIdx k -> Cell.at_ second other = Cell.at_ first other) :
    (held.map (Cell.at_ second)).set k look = (held.map (Cell.at_ first)).set k look := by
  refine List.ext_getElem? fun j => ?_
  rw [List.getElem?_set, List.getElem?_set, List.length_map, List.length_map]
  by_cases here : k = j
  · rw [if_pos here, if_pos here]
  · rw [if_neg here, if_neg here, List.getElem?_map, List.getElem?_map]
    cases there : held[j]? with
    | none => rfl
    | some other =>
        have member := List.mem_eraseIdx_iff_getElem?.mpr ⟨j, fun same => here same.symm, there⟩
        exact congrArg some (same other member)

theorem view_put {first second : Bytes} {offset : Nat} {byte : Byte} (at_ : held[k]? = some block)
    (filled : second = first.fill (block.1 + offset) 1 byte)
    (same : forall other, other ∈ held.eraseIdx k -> Cell.at_ second other = Cell.at_ first other) :
    held.map (Cell.at_ second) = (held.map (Cell.at_ first)).set k ((Cell.at_ first block).put offset byte) := by
  rcases List.getElem?_eq_some_iff.mp at_ with ⟨low, rfl⟩
  have short : k < (held.map (Cell.at_ second)).length := by
    rw [List.length_map]
    exact low
  calc held.map (Cell.at_ second)
      = (held.map (Cell.at_ second)).set k (Cell.at_ second held[k]) := by
        rw [← List.getElem_map (Cell.at_ second) (h := short), List.set_getElem_self]
    _ = (held.map (Cell.at_ first)).set k (Cell.at_ second held[k]) := view_set same
    _ = (held.map (Cell.at_ first)).set k ((Cell.at_ first held[k]).put offset byte) := by
        rw [filled, Cell.at_fill]

namespace Sound

theorem refused (sound : Sound ledger ⟨before, held⟩) (grants : ledger.Grants layout before none later) :
    Sound ledger ⟨later, held⟩ ∧ view ⟨later, held⟩ = view ⟨before, held⟩ := by
  refine ⟨sound.moved grants.good fun block inside => grants.outcome.symm ▸ sound.live block inside, ?_⟩
  exact List.map_congr_left fun block inside => Cell.at_congr grants.intact (sound.live block inside)

theorem granted (sound : Sound ledger ⟨before, held⟩) (grants : ledger.Grants layout before (some ptr) later)
    (asked : layout.Asked) (some_ : 0 < layout.size) (gives : ledger.gives layout.align) :
    Sound ledger ⟨later, held ++ [(ptr, layout)]⟩ ∧ view ⟨later, held ++ [(ptr, layout)]⟩ =
      view ⟨before, held⟩ ++ [Cell.at_ (HasBytes.bytes later) (ptr, layout)] := by
  rcases grants.outcome with ⟨fresh, grown⟩
  have still := sound.moved grants.good fun block inside => grown ▸ Set.mem_insert_of_mem _ (sound.live block inside)
  have mine : (ptr, layout) ∈ ledger.live later := grown ▸ Set.mem_insert _ _
  have beside : Fresh {block | block ∈ held} ptr layout :=
    ⟨fresh.real, fresh.room, fresh.aligned, fun block inside => fresh.apart block (sound.live block inside)⟩
  constructor
  · exact (still.cons beside mine asked some_ gives).perm (List.perm_append_singleton _ _).symm
  · unfold view
    rw [List.map_append, List.map_singleton]
    congr 1
    exact List.map_congr_left fun block inside => Cell.at_congr grants.intact (sound.live block inside)

theorem unresized (sound : Sound ledger ⟨before, held⟩) (resizes : ledger.Resizes ptr old newSize before none later) :
    Sound ledger ⟨later, held⟩ ∧ view ⟨later, held⟩ = view ⟨before, held⟩ := by
  refine ⟨sound.moved resizes.good fun block inside => resizes.outcome.1.symm ▸ sound.live block inside, ?_⟩
  exact List.map_congr_left fun block inside => Cell.at_congr resizes.outcome.2 (sound.live block inside)

/-- The block at `k` has another size, and maybe another place. -/
theorem resized {addr : Nat} (sound : Sound ledger ⟨before, held⟩) (at_ : held[k]? = some (ptr, old))
    (resizes : ledger.Resizes ptr old newSize before (some addr) later)
    (some_ : 0 < newSize) (fits : newSize < sizeRange) :
    Sound ledger ⟨later, held.set k (addr, ⟨newSize, old.align⟩)⟩ ∧
      view ⟨later, held.set k (addr, ⟨newSize, old.align⟩)⟩ = (view ⟨before, held⟩).set k
        (Cell.at_ (HasBytes.bytes later) (addr, ⟨newSize, old.align⟩)) ∧
      (Cell.at_ (HasBytes.bytes before) (ptr, old)).Resized newSize
        (Cell.at_ (HasBytes.bytes later) (addr, ⟨newSize, old.align⟩)) := by
  rcases resizes.outcome with ⟨fresh, grown, carried⟩
  have first := sound.foremost at_
  have others : forall other, other ∈ held.eraseIdx k -> other ∈ ledger.live before \ {(ptr, old)} :=
    fun other inside => ⟨first.tail.live other inside, first.tail_ne other inside⟩
  have still := first.tail.moved resizes.good fun other inside => grown ▸ Set.mem_insert_of_mem _ (others other inside)
  have mine : (addr, ⟨newSize, old.align⟩) ∈ ledger.live later := grown ▸ Set.mem_insert _ _
  have beside : Fresh {block | block ∈ held.eraseIdx k} addr ⟨newSize, old.align⟩ :=
    ⟨fresh.real, fresh.room, fresh.aligned, fun other inside => fresh.apart other (others other inside)⟩
  rcases sound.asked _ (List.mem_of_getElem? at_) with ⟨asked, _, gives, _⟩
  refine ⟨?_, ?_, rfl, ?_⟩
  · have low := (List.getElem?_eq_some_iff.mp at_).1
    exact (still.cons beside mine ⟨asked.isAlign, fits, asked.align⟩ some_ gives).perm
      (List.set_perm_cons_eraseIdx low _).symm
  · unfold view
    rw [List.map_set]
    exact view_set fun other inside => Cell.at_congr resizes.intact (others other inside)
  · intro offset low
    have short : offset < newSize := Nat.lt_of_lt_of_le low (Nat.min_le_right _ _)
    have within : offset < old.size := Nat.lt_of_lt_of_le low (Nat.min_le_left _ _)
    rw [Cell.at_getElem? short, Cell.at_getElem? within]
    exact congrArg some (carried offset low)

theorem released (sound : Sound ledger ⟨before, held⟩) (at_ : held[k]? = some block)
    (releases : ledger.Releases block before later) :
    Sound ledger ⟨later, held.eraseIdx k⟩ ∧
      view ⟨later, held.eraseIdx k⟩ = (view ⟨before, held⟩).eraseIdx k := by
  have first := sound.foremost at_
  have others : forall other, other ∈ held.eraseIdx k -> other ∈ ledger.live before \ {block} :=
    fun other inside => ⟨first.tail.live other inside, first.tail_ne other inside⟩
  refine ⟨first.tail.moved releases.good fun other inside => releases.live ▸ others other inside, ?_⟩
  unfold view
  dsimp only
  rw [List.eraseIdx_map]
  exact List.map_congr_left fun other inside => Cell.at_congr releases.intact (others other inside)

theorem written (serves : ledger.Serves able al) (sound : Sound ledger ⟨before, held⟩)
    (at_ : held[k]? = some block) {offset : Nat} (low : offset < block.2.size) (byte : Byte) :
    let later := HasBytes.withBytes ((HasBytes.bytes before).fill (block.1 + offset) 1 byte) before
    Sound ledger ⟨later, held⟩ ∧ view ⟨later, held⟩ =
      (view ⟨before, held⟩).set k ((Cell.at_ (HasBytes.bytes before) block).put offset byte) := by
  have first := sound.foremost at_
  have inside := sound.live block (List.mem_of_getElem? at_)
  have within : Region.Within ⟨block.1 + offset, 1⟩ (Parent.region block) := by
    unfold Region.Within Parent.region Region.stop
    dsimp only
    omega
  rcases serves.ends_overwritten (fun _ => byte) sound.good inside within
    (show forall other, other ∈ {other | other ∈ held.eraseIdx k} -> _ from (List.pairwise_cons.mp first.apart).1)
    with ⟨good, live, now, kept⟩
  refine ⟨sound.moved good fun other member => live.symm ▸ sound.live other member, ?_⟩
  exact view_put at_ now fun other inside => Cell.at_congr kept inside

end Sound

/-! ## Acts -/

theorem view_getElem? (at_ : client.held[k]? = some block) :
    client.view[k]? = some (Cell.at_ (HasBytes.bytes client.state) block) := by
  rw [view, List.getElem?_map, at_, Option.map_some]

theorem exists_held (low : k < client.view.length) : exists block, client.held[k]? = some block := by
  rw [view, List.length_map] at low
  exact ⟨_, List.getElem?_eq_getElem low⟩

theorem Sound.ends_enter {act : Act} {answer : Option Addr} (sound : Sound ledger ⟨before, held⟩)
    (grants : ledger.Grants layout before answer later) (asked : layout.Asked)
    (gives : ledger.gives layout.align) (may : act.MayRefuse)
    (some_ : forall addr, answer = some addr -> 0 < layout.size ∧
      Step (view ⟨before, held⟩) act (view ⟨before, held⟩ ++ [Cell.at_ (HasBytes.bytes later) (addr, layout)])) :
    Ends (enter answer layout) ⟨later, held⟩ fun _ client =>
      Sound ledger client ∧ Step (view ⟨before, held⟩) act client.view := by
  cases answer with
  | none =>
      rcases sound.refused grants with ⟨still, same⟩
      refine (ends_pure _ _ _).mpr ⟨still, ?_⟩
      rw [same]
      exact .refused may
  | some addr =>
      rcases some_ addr rfl with ⟨positive, step⟩
      rcases sound.granted grants asked positive gives with ⟨still, same⟩
      refine (ends_modify _ _ _).mpr ⟨still, ?_⟩
      rw [← same] at step
      exact step

/-- The block at `k` was resized, or it was not. -/
theorem Sound.resizes (act : Act) {answer : Option Addr} (sound : Sound ledger ⟨before, held⟩)
    (at_ : held[k]? = some (ptr, old)) (resizes : ledger.Resizes ptr old newSize before answer later)
    (some_ : 0 < newSize) (fits : newSize < sizeRange) (may : act.MayRefuse) (sizes : act.Sizes k newSize) :
    match answer with
    | none => Sound ledger ⟨later, held⟩ ∧ Step (view ⟨before, held⟩) act (view ⟨later, held⟩)
    | some addr => Sound ledger ⟨later, held.set k (addr, ⟨newSize, old.align⟩)⟩ ∧
        Step (view ⟨before, held⟩) act (view ⟨later, held.set k (addr, ⟨newSize, old.align⟩)⟩) := by
  cases answer with
  | none =>
      rcases sound.unresized resizes with ⟨still, same⟩
      refine ⟨still, ?_⟩
      rw [same]
      exact .refused may
  | some addr =>
      rcases sound.resized at_ resizes some_ fits with ⟨still, same, begins⟩
      refine ⟨still, ?_⟩
      rw [same]
      exact .resized (view_getElem? at_) some_ begins sizes

/-- An act that a client may make ends, and does to the client's view what the
abstract heap does. -/
theorem ends_run (serves : ledger.Serves able al) (sound : Sound ledger client) (act : Act)
    (allowed : act.Allowed ledger.gives client.view) (isAble : able client.state) :
    Ends (act.run al) client fun _ later => Sound ledger later ∧ Step client.view act later.view := by
  rcases client with ⟨before, held⟩
  cases act with
  | alloc layout =>
      rcases allowed with ⟨asked, gives⟩
      simp only [Act.run, ends_bind, ends_call]
      refine (serves.ends_allocate sound.good isAble asked gives).mono ?_
      rintro answer later ⟨grants, positive⟩
      refine sound.ends_enter grants asked gives trivial ?_
      rintro addr rfl
      have some_ := positive (Option.some_ne_none _)
      exact ⟨some_, .granted (Cell.at_ (HasBytes.bytes later) (addr, layout)) some_⟩
  | allocZeroed layout =>
      rcases allowed with ⟨asked, gives⟩
      simp only [Act.run, ends_bind, ends_call]
      refine (serves.ends_allocateZeroed sound.good isAble asked gives).mono ?_
      rintro answer later ⟨grants, zeroed⟩
      refine sound.ends_enter grants asked gives trivial ?_
      rintro addr rfl
      rcases zeroed addr rfl with ⟨some_, zeros⟩
      have looks : Cell.at_ (HasBytes.bytes later) (addr, layout) = Cell.zeroed layout := by
        refine Cell.ext rfl ?_
        refine (List.map_congr_left fun offset low => zeros offset (List.mem_range.mp low)).trans ?_
        rw [List.map_const', List.length_range]
        rfl
      rw [looks]
      exact ⟨some_, .zeroed layout some_⟩
  | resize k newSize =>
      rcases allowed with ⟨low, some_, fits⟩
      rcases exists_held low with ⟨⟨ptr, old⟩, at_⟩
      rcases sound.asked _ (List.mem_of_getElem? at_) with ⟨asked, positive, _, _⟩
      simp only [Act.run, ends_bind]
      rw [ends_lookUp at_, ends_call]
      refine (serves.ends_resizeInPlace sound.good (sound.live _ (List.mem_of_getElem? at_)) asked.isAlign positive
        some_ fits).mono ?_
      rintro done later ⟨resizes, _⟩
      have both := sound.resizes (.resize k newSize) at_ resizes some_ fits trivial (Or.inl rfl)
      cases done with
      | true =>
          simp only [if_true, replace, ends_modify]
          exact both
      | false =>
          simp only [Bool.false_eq_true, if_false, ends_pure]
          exact both
  | remap k newSize =>
      rcases allowed with ⟨low, some_, fits⟩
      rcases exists_held low with ⟨⟨ptr, old⟩, at_⟩
      rcases sound.asked _ (List.mem_of_getElem? at_) with ⟨asked, positive, _, _⟩
      simp only [Act.run, ends_bind]
      rw [ends_lookUp at_, ends_call]
      refine (serves.ends_moveByHook sound.good (sound.live _ (List.mem_of_getElem? at_)) asked.isAlign positive
        some_ fits).mono ?_
      rintro answer later ⟨resizes, _⟩
      have both := sound.resizes (.remap k newSize) at_ resizes some_ fits trivial (Or.inr (Or.inl rfl))
      cases answer with
      | none => exact (ends_pure _ _ _).mpr both
      | some addr => exact (ends_modify _ _ _).mpr both
  | realloc k newSize =>
      rcases allowed with ⟨low, fits⟩
      rcases exists_held low with ⟨⟨ptr, old⟩, at_⟩
      rcases sound.asked _ (List.mem_of_getElem? at_) with ⟨asked, positive, gives, _⟩
      simp only [Act.run, ends_bind]
      rw [ends_lookUp at_, ends_call]
      have wanted : Layout.Asked ⟨newSize, old.align⟩ := ⟨asked.isAlign, fits, asked.align⟩
      refine (serves.ends_reallocate sound.good isAble (sound.live _ (List.mem_of_getElem? at_)) positive wanted
        gives).mono ?_
      rintro answer later ⟨freed, resizes⟩
      by_cases nothing : newSize = 0
      · rcases freed nothing with ⟨rfl, releases⟩
        rcases sound.released at_ releases with ⟨still, same⟩
        subst nothing
        simp only [if_true, drop, ends_modify]
        refine ⟨still, ?_⟩
        rw [same]
        exact .emptied k
      · have some_ : 0 < newSize := Nat.pos_of_ne_zero nothing
        have both := sound.resizes (.realloc k newSize) at_ (resizes some_) some_ fits some_
          (Or.inr (Or.inr rfl))
        cases answer with
        | none =>
            simp only [if_neg nothing, ends_pure]
            exact both
        | some addr => exact (ends_modify _ _ _).mpr both
  | reallocNull align newSize =>
      rcases allowed with ⟨asked, gives⟩
      have isAlign : Layout.isAlign align = true := asked.isAlign
      simp only [Act.run, ends_bind, ends_call, AlVtable.reallocate, ends_require, isAlign, true_and]
      by_cases nothing : newSize = 0
      · simp only [if_pos nothing, ends_bind, AlVtable.deallocate, ends_require, true_or, isAlign, true_and,
          ends_pure, enter]
        exact ⟨sound, .refused trivial⟩
      · rw [if_neg nothing]
        have some_ : 0 < newSize := Nat.pos_of_ne_zero nothing
        refine (serves.ends_allocate sound.good isAble asked gives).mono ?_
        rintro answer later ⟨grants, _⟩
        refine sound.ends_enter grants asked gives trivial ?_
        rintro addr rfl
        exact ⟨some_, .fromNull (Cell.at_ (HasBytes.bytes later) (addr, ⟨newSize, align⟩)) some_⟩
  | dealloc k =>
      rcases exists_held allowed with ⟨⟨ptr, layout⟩, at_⟩
      rcases sound.asked _ (List.mem_of_getElem? at_) with ⟨asked, positive, _, _⟩
      simp only [Act.run, ends_bind]
      rw [ends_lookUp at_, ends_call]
      refine (serves.ends_deallocate sound.good (sound.live _ (List.mem_of_getElem? at_)) asked.isAlign
        positive).mono ?_
      intro _ later releases
      rcases sound.released at_ releases with ⟨still, same⟩
      simp only [drop, ends_modify]
      refine ⟨still, ?_⟩
      rw [same]
      exact .freed k
  | write k offset byte =>
      rcases allowed with ⟨cell, there, low⟩
      have short : k < (view ⟨before, held⟩).length := (List.getElem?_eq_some_iff.mp there).1
      rcases exists_held short with ⟨block, at_⟩
      have same := (view_getElem? at_).symm.trans there
      cases same
      simp only [Act.run, ends_bind]
      rw [ends_lookUp at_, ends_call]
      simp only [AlVtable.setBytes, ends_modify]
      rcases sound.written serves at_ low byte with ⟨still, seen⟩
      refine ⟨still, ?_⟩
      rw [seen]
      exact .written (view_getElem? at_) offset byte

/-! ## Runs -/

/-- What a client that keeps to its blocks comes to, as long as the allocator is able. -/
inductive Reaches (ledger : Ledger S) (able : S -> Prop) (al : AlVtable S) (start : Client S) : Client S -> Prop
  | start : Reaches ledger able al start start
  | act {client later : Client S} (reaches : Reaches ledger able al start client) (act : Act)
      (allowed : act.Allowed ledger.gives client.view) (isAble : able client.state)
      (ran : act.run al client = some ((), later)) : Reaches ledger able al start later

theorem Reaches.sound {start : Client S} (reaches : Reaches ledger able al start client)
    (serves : ledger.Serves able al) (sound : Sound ledger start) : Sound ledger client ∧
      Relation.ReflTransGen (fun cells later => exists act : Act, act.Allowed ledger.gives cells ∧ Step cells act later)
        start.view client.view := by
  induction reaches with
  | start => exact ⟨sound, .refl⟩
  | act _ act allowed isAble ran ih =>
      have after := (ends_run serves ih.1 act allowed isAble).of_eq ran
      exact ⟨after.1, ih.2.tail ⟨act, allowed, after.2⟩⟩

/-- Whatever calls a client makes of the wrappers of an allocator whose hooks keep
their contract, and whatever it writes into its blocks in between: no call goes
wrong, its blocks stay apart, aligned and live, and what it sees is a run of the
abstract heap. -/
theorem Reaches.refines_heap {start : Client S} (reaches : Reaches ledger able al start client)
    (serves : ledger.Serves able al) (sound : Sound ledger start) :
    Relation.ReflTransGen (fun cells later => exists act : Act, act.Allowed ledger.gives cells ∧ Step cells act later)
        start.view client.view ∧
      (client.held.Pairwise fun left right => (Parent.region left).Apart (Parent.region right)) ∧
      (forall block, block ∈ client.held -> block ∈ ledger.live client.state ∧ block.2.align ∣ block.1) ∧
      forall act : Act, act.Allowed ledger.gives client.view -> able client.state ->
        Ends (act.run al) client fun _ later =>
          Reaches ledger able al start later ∧ Step client.view act later.view := by
  rcases reaches.sound serves sound with ⟨now, steps⟩
  refine ⟨steps, now.apart, fun block inside => ⟨now.live block inside, (now.asked block inside).2.2.2⟩, ?_⟩
  intro act allowed isAble
  rcases ends_run serves now act allowed isAble with ⟨_, later, ran, _, step⟩
  exact ⟨(), later, ran, reaches.act act allowed isAble ran, step⟩

/-- A parent whose script grants block after block. -/
def granting : Parent := ⟨fun _ => 0, [], fun asked => ⟨some (64 * (asked + 1)), true, fun _ => 7⟩, 0⟩

/-- A client of it takes two blocks, writes into the first one and gives the second one back. -/
theorem refines_heap_of_granting : exists later : Client Parent, later.held = [(64, ⟨8, 8⟩)] ∧
    Relation.ReflTransGen (fun cells later => exists act : Act,
      act.Allowed Parent.ledger.gives cells ∧ Step cells act later) [] later.view := by
  have good : Parent.ledger.good granting := ⟨List.nodup_nil, List.Pairwise.nil⟩
  have nothing : Reaches Parent.ledger (fun _ => True) Parent.toAl ⟨granting, []⟩ ⟨granting, []⟩ := .start
  have first := nothing.act (.alloc ⟨8, 8⟩) ⟨⟨by decide, by decide, by decide⟩, trivial⟩ trivial rfl
  have second := first.act (.alloc ⟨16, 16⟩) ⟨⟨by decide, by decide, by decide⟩, trivial⟩ trivial rfl
  have third := second.act (.write 0 3 9) ⟨_, rfl, (by decide : 3 < 8)⟩ trivial rfl
  have fourth := third.act (.dealloc 1) (by decide : 1 < 2) trivial rfl
  exact ⟨_, rfl, (fourth.refines_heap Parent.meets.serves (Sound.nil good)).1⟩

end Client
end TerseDsa
