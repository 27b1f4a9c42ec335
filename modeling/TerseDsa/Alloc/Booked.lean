import TerseDsa.Alloc.Serving

namespace TerseDsa

open Foundation Run

/-!
# Blocks noted beside the allocator

Most allocators do not know which of their blocks are out.  Here they are noted
beside the allocator's state, by hooks that work as the allocator's own do and
never look at the notes.  What an allocator keeps true of its state and of the
blocks that are out is then enough for the whole contract of its hooks.
-/

namespace World

variable {Ctx P α : Type} {world : World Ctx P}

theorem allows_self {post : Ctx -> World Ctx P -> Prop} :
    Allows self world post <-> post world.ctx world := by
  rw [self, allows_bind, Run.allows_get, allows_pure]

theorem allows_setSelf {ctx : Ctx} {post : Unit -> World Ctx P -> Prop} :
    Allows (setSelf ctx) world post <-> post () { world with ctx := ctx } :=
  allows_modify _ _ _

theorem allows_under {run : Run P α} {post : α -> World Ctx P -> Prop} :
    Allows (under run) world post <->
      Allows run world.below fun a below => post a { world with below := below } :=
  allows_zoom

end World

/-- A state, and the blocks that are out. -/
structure Booked (S : Type) where
  state : S
  out : List (Nat × Layout)

instance {S : Type} [HasBytes S] : HasBytes (Booked S) where
  bytes booked := HasBytes.bytes booked.state
  withBytes bytes booked := { booked with state := HasBytes.withBytes bytes booked.state }
  bytes_withBytes _ _ := HasBytes.bytes_withBytes _ _

namespace Booked

variable {S α : Type}

/-- Call the allocator. -/
def call (run : Run S α) : Run (Booked S) α :=
  zoom Booked.state (fun state booked => { booked with state := state }) run

/-- Note a change of the blocks that are out. -/
def note (change : List (Nat × Layout) -> List (Nat × Layout)) : Run (Booked S) Unit :=
  modify fun booked => { booked with out := change booked.out }

/-- The blocks that are out after an answer: the one handed out, and what remains of the others. -/
def handed (layout : Layout) (remain out : List (Nat × Layout)) : Option Addr -> List (Nat × Layout)
  | none => out
  | some addr => (addr, layout) :: remain

/-- Note the block that was handed out. -/
def hand (answer : Option Addr) (layout : Layout)
    (remain : List (Nat × Layout) -> List (Nat × Layout)) : Run (Booked S) Unit :=
  note fun out => handed layout (remain out) out answer

end Booked

namespace AlVtable

variable {S : Type}

/-- The allocator with its blocks noted.  It has the hooks that the other one has. -/
def booked (al : AlVtable S) : AlVtable (Booked S) where
  alloc layout := do
    let answer ← Booked.call (al.alloc layout)
    Booked.hand answer layout id
    return answer
  allocZeroed := al.allocZeroed.map fun hook layout => do
    let answer ← Booked.call (hook layout)
    Booked.hand answer layout id
    return answer
  resize := al.resize.map fun hook ptr old newSize => do
    let done ← Booked.call (hook ptr old newSize)
    Booked.hand (if done = true then some ptr else none) ⟨newSize, old.align⟩ fun out => out.erase (ptr, old)
    return done
  remap := al.remap.map fun hook ptr old newSize => do
    let answer ← Booked.call (hook ptr old newSize)
    Booked.hand answer ⟨newSize, old.align⟩ fun out => out.erase (ptr, old)
    return answer
  dealloc ptr layout := do
    Booked.call (al.dealloc ptr layout)
    Booked.note fun out => out.erase (ptr, layout)

/-! ## Hooks by their wrappers -/

variable {al : AlVtable S} {s : S} {layout old : Layout} {ptr newSize : Nat}

/-- What holds of the wrapper holds of the hook. -/
theorem ends_alloc_of {post : Option Addr -> S -> Prop} (some_ : 0 < layout.size)
    (ends : Ends (allocate al layout) s post) : Ends (al.alloc layout) s post := by
  simp only [allocate, ends_bind, ends_require, if_neg (Nat.ne_of_gt some_), ends_pure] at ends
  exact ends.2.mono fun _ _ both => both.2

theorem ends_resize_of {hook : Addr -> Layout -> Nat -> Run S Bool} {post : Bool -> S -> Prop}
    (there : al.resize = some hook) (ends : Ends (resizeInPlace al ptr old newSize) s post) :
    Ends (hook ptr old newSize) s post := by
  simp only [resizeInPlace, ends_bind, ends_require, there] at ends
  exact ends.2.2

theorem ends_remap_of {hook : Addr -> Layout -> Nat -> Run S (Option Addr)} {post : Option Addr -> S -> Prop}
    (there : al.remap = some hook) (ends : Ends (moveByHook al ptr old newSize) s post) :
    Ends (hook ptr old newSize) s post := by
  simp only [moveByHook, ends_bind, ends_require, there, ends_pure] at ends
  exact ends.2.2.mono fun _ _ both => both.2

theorem ends_dealloc_of {post : Unit -> S -> Prop}
    (ends : Ends (deallocate al (some ptr) layout) s post) : Ends (al.dealloc ptr layout) s post := by
  simp only [deallocate, ends_bind, ends_require] at ends
  exact ends.2.2

end AlVtable

namespace Booked

variable {S α : Type}

/-- The blocks that a list names. -/
abbrev those (out : List (Nat × Layout)) : Set (Nat × Layout) := {block | block ∈ out}

/-- The ledger of an allocator that keeps `inv` of its state and the blocks that are out. -/
def ledger (gives : Nat -> Prop) (inv : S -> List (Nat × Layout) -> Prop) : Ledger (Booked S) where
  live booked := those booked.out
  gives := gives
  good booked := inv booked.state booked.out ∧ booked.out.Nodup

/-- What a hook that resizes a block comes to: the block has the new size, at the
address of the answer, or all blocks are as they were. -/
structure Moves [HasBytes S] (inv : S -> List (Nat × Layout) -> Prop) (out : List (Nat × Layout)) (ptr : Addr)
    (old : Layout) (newSize : Nat) (before : S) (answer : Option Addr) (later : S) : Prop where
  intact : Intact (those out) (HasBytes.bytes before) (HasBytes.bytes later)
  outcome :
    match answer with
    | none => inv later ((ptr, old) :: out) ∧
        Intact (those ((ptr, old) :: out)) (HasBytes.bytes before) (HasBytes.bytes later)
    | some addr => inv later ((addr, ⟨newSize, old.align⟩) :: out) ∧
        Fresh (those out) addr ⟨newSize, old.align⟩ ∧
        Carries (HasBytes.bytes before) (HasBytes.bytes later) ptr addr (min old.size newSize)

/-- A block was handed out beside the others, or refused. -/
structure Hands [HasBytes S] (inv : S -> List (Nat × Layout) -> Prop) (out : List (Nat × Layout)) (layout : Layout)
    (before : S) (answer : Option Addr) (later : S) : Prop where
  intact : Intact (those out) (HasBytes.bytes before) (HasBytes.bytes later)
  outcome :
    match answer with
    | none => inv later out
    | some addr => inv later ((addr, layout) :: out) ∧ Fresh (those out) addr layout

/-- What each hook keeps of the state and the blocks that are out, while the allocator is able. -/
structure Keeps [HasBytes S] (gives : Nat -> Prop) (able : S -> Prop) (inv : S -> List (Nat × Layout) -> Prop)
    (al : AlVtable S) : Prop where
  perm : forall {s out others}, inv s out -> List.Perm out others -> inv s others
  alloc : forall s out layout, inv s out -> able s -> layout.Asked -> gives layout.align -> 0 < layout.size ->
    Ends (al.alloc layout) s (Hands inv out layout s)
  allocZeroed : forall hook, al.allocZeroed = some hook -> forall s out layout, inv s out -> able s ->
    layout.Asked -> gives layout.align -> 0 < layout.size -> Ends (hook layout) s fun answer later =>
      Hands inv out layout s answer later ∧ forall addr, answer = some addr ->
        forall offset, offset < layout.size -> HasBytes.bytes later (addr + offset) = 0
  resize : forall hook, al.resize = some hook -> forall s out ptr old newSize, inv s ((ptr, old) :: out) ->
    0 < old.size -> 0 < newSize -> newSize < sizeRange -> Ends (hook ptr old newSize) s fun done later =>
      Moves inv out ptr old newSize s (if done = true then some ptr else none) later ∧
        (done = false -> able s -> able later)
  remap : forall hook, al.remap = some hook -> forall s out ptr old newSize, inv s ((ptr, old) :: out) ->
    0 < old.size -> 0 < newSize -> newSize < sizeRange -> Ends (hook ptr old newSize) s fun answer later =>
      Moves inv out ptr old newSize s answer later ∧ (answer = none -> able s -> able later)
  dealloc : forall s out ptr layout, inv s ((ptr, layout) :: out) -> 0 < layout.size ->
    Ends (al.dealloc ptr layout) s fun _ later =>
      inv later out ∧ Intact (those out) (HasBytes.bytes s) (HasBytes.bytes later)
  write : forall s out block region content, inv s out -> block ∈ out -> region.Within (Parent.region block) ->
    inv (HasBytes.withBytes ((HasBytes.bytes s).overwrite region content) s) out

variable {run : Run S α} {booked : Booked S} {remain : List (Nat × Layout) -> List (Nat × Layout)}
  {out : List (Nat × Layout)} {block : Nat × Layout}

theorem ends_call {post : α -> Booked S -> Prop} :
    Ends (call run) booked post <->
      Ends run booked.state fun a state => post a { booked with state := state } :=
  ends_zoom

theorem ends_hand {answer : Option Addr} {layout : Layout} {post : Unit -> Booked S -> Prop} :
    Ends (hand answer layout remain) booked post <->
      post () { booked with out := handed layout (remain booked.out) booked.out answer } :=
  ends_modify _ _ _

theorem those_cons (block : Nat × Layout) (out : List (Nat × Layout)) :
    those (block :: out) = insert block (those out) := by
  ext each
  exact List.mem_cons

/-- The others are those that are out but one. -/
theorem those_erase (nodup : out.Nodup) (block : Nat × Layout) : those (out.erase block) = those out \ {block} := by
  ext each
  exact (nodup.mem_erase_iff).trans and_comm

variable [HasBytes S] {gives : Nat -> Prop} {able : S -> Prop} {inv : S -> List (Nat × Layout) -> Prop}
  {al : AlVtable S} {layout old : Layout} {before later : S} {ptr newSize : Nat} {answer : Option Addr}

/-- The contract of a request, from what the hook keeps. -/
theorem Hands.grants (hands : Hands inv out layout before answer later) (some_ : 0 < layout.size)
    (nodup : out.Nodup) :
    (ledger gives inv).Grants layout ⟨before, out⟩ answer ⟨later, handed layout (id out) out answer⟩ := by
  rcases hands with ⟨intact, outcome⟩
  cases answer with
  | none => exact ⟨⟨outcome, nodup⟩, intact, rfl⟩
  | some addr =>
      rcases outcome with ⟨held, fresh⟩
      have new : (addr, layout) ∉ out := fun inside => fresh.ne some_ inside rfl
      exact ⟨⟨held, List.nodup_cons.mpr ⟨new, nodup⟩⟩, intact, fresh, those_cons _ _⟩

/-- The contract of a resize, from what the hook keeps. -/
theorem Moves.resizes (moves : Moves inv (out.erase (ptr, old)) ptr old newSize before answer later)
    (perm : forall {s out others}, inv s out -> List.Perm out others -> inv s others)
    (inside : (ptr, old) ∈ out) (some_ : 0 < newSize) (nodup : out.Nodup) :
    (ledger gives inv).Resizes ptr old newSize ⟨before, out⟩ answer
      ⟨later, handed ⟨newSize, old.align⟩ (out.erase (ptr, old)) out answer⟩ := by
  rcases moves with ⟨intact, outcome⟩
  rw [those_erase nodup] at intact
  cases answer with
  | none =>
      rcases outcome with ⟨held, kept⟩
      have back : ((ptr, old) :: out.erase (ptr, old)).Perm out := (List.perm_cons_erase inside).symm
      refine ⟨⟨perm held back, nodup⟩, intact, rfl, kept.anti fun block member => back.mem_iff.mpr member⟩
  | some addr =>
      rcases outcome with ⟨held, fresh, carries⟩
      have new : (addr, ⟨newSize, old.align⟩) ∉ out.erase (ptr, old) := fun member => fresh.ne some_ member rfl
      refine ⟨⟨held, List.nodup_cons.mpr ⟨new, nodup.erase _⟩⟩, intact, ?_, ?_, carries⟩
      · exact those_erase nodup (ptr, old) ▸ fresh
      · exact (those_cons _ _).trans (congrArg _ (those_erase nodup _))

/-- What the hooks keep is enough for their contract. -/
theorem Keeps.serves (keeps : Keeps gives able inv al) :
    (ledger gives inv).Serves (fun booked => able booked.state) al.booked where
  alloc booked layout good isAble asked given some_ := by
    simp only [AlVtable.booked, ends_bind, ends_call, ends_hand, ends_pure]
    refine (keeps.alloc booked.state booked.out layout good.1 isAble asked given some_).mono ?_
    exact fun answer later hands => hands.grants some_ good.2
  allocZeroed := by
    intro hook there booked layout good isAble asked given some_
    rcases Option.map_eq_some_iff.mp there with ⟨inner, own, rfl⟩
    simp only [ends_bind, ends_call, ends_hand, ends_pure]
    refine (keeps.allocZeroed inner own booked.state booked.out layout good.1 isAble asked given some_).mono ?_
    exact fun answer later both => ⟨both.1.grants some_ good.2, both.2⟩
  resize := by
    intro hook there booked ptr old newSize good inside held some_ fits
    rcases Option.map_eq_some_iff.mp there with ⟨inner, own, rfl⟩
    have foremost := keeps.perm good.1 (List.perm_cons_erase inside)
    simp only [ends_bind, ends_call, ends_hand, ends_pure]
    refine (keeps.resize inner own booked.state _ ptr old newSize foremost held some_ fits).mono ?_
    exact fun done later both => ⟨both.1.resizes keeps.perm inside some_ good.2, both.2⟩
  remap := by
    intro hook there booked ptr old newSize good inside held some_ fits
    rcases Option.map_eq_some_iff.mp there with ⟨inner, own, rfl⟩
    have foremost := keeps.perm good.1 (List.perm_cons_erase inside)
    simp only [ends_bind, ends_call, ends_hand, ends_pure]
    refine (keeps.remap inner own booked.state _ ptr old newSize foremost held some_ fits).mono ?_
    exact fun answer later both => ⟨both.1.resizes keeps.perm inside some_ good.2, both.2⟩
  dealloc booked ptr layout good inside held := by
    have foremost := keeps.perm good.1 (List.perm_cons_erase inside)
    simp only [AlVtable.booked, note, ends_bind, ends_call, ends_modify]
    refine (keeps.dealloc booked.state _ ptr layout foremost held).mono ?_
    rintro _ later ⟨rest, intact⟩
    rw [those_erase good.2] at intact
    exact ⟨⟨rest, good.2.erase _⟩, intact, those_erase good.2 _⟩
  write booked block region content good inside within :=
    ⟨⟨keeps.write booked.state booked.out block region content good.1 inside within, good.2⟩, rfl⟩

end Booked

/-- An allocator that is able at any time meets the contract. -/
theorem Ledger.Serves.meets {S : Type} [HasBytes S] {ledger : Ledger S} {al : AlVtable S}
    (serves : ledger.Serves (fun _ => True) al) : ledger.Meets al where
  alloc s layout good := serves.alloc s layout good trivial
  allocZeroed hook there s layout good := serves.allocZeroed hook there s layout good trivial
  resize hook there s ptr old newSize good live held some_ fits :=
    (serves.resize hook there s ptr old newSize good live held some_ fits).mono fun _ _ both => both.1
  remap hook there s ptr old newSize good live held some_ fits :=
    (serves.remap hook there s ptr old newSize good live held some_ fits).mono fun _ _ both => both.1
  dealloc := serves.dealloc
  write := serves.write

end TerseDsa
