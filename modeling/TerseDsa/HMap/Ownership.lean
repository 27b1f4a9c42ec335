import TerseDsa.HMap.Objects

namespace TerseDsa

open Foundation Run HMap
open Function (update update_idem update_self update_of_ne)

/-!
# Who owns what

In every state a program can come to, every object is either inert or a map
over a table of chains, and the live blocks are divided among the objects.
The invariant is kept by every call, whatever the allocator answers: a call
that changes one object acts on its part of the heap only, and `swap` and
`move_assign` trade whole parts.
-/

variable {K V C : Type} {s : HMapObjects K V}

/-- An object is over a table of chains, or inert. -/
structure Held (blocks : Blocks AlTag (HMapCell K V)) (map : HMap K) (table : HMapTable K V) :
    Prop where
  rep : Rep blocks map table
  shape : map.al.isSome = true -> Shape map table
  idle : map.al = none -> map = inert
  keyed : Lawful map -> Keyed map table.flatten

theorem Held.inert {blocks : Blocks AlTag (HMapCell K V)} :
    Held blocks (inert : HMap K) ([] : HMapTable K V) :=
  ⟨Rep.empty rfl, (fun real => by cases real), fun _ => rfl, fun _ => Keyed.nil⟩

theorem Held.of_shape {blocks : Blocks AlTag (HMapCell K V)} {map : HMap K}
    {table : HMapTable K V} (rep : Rep blocks map table) (shape : Shape map table)
    (keyed : Lawful map -> Keyed map table.flatten) : Held blocks map table := by
  refine ⟨rep, fun _ => shape, ?_, keyed⟩
  intro none_
  have real := shape.real
  rw [none_] at real
  cases real

/-- Maps own their bucket array and their nodes. -/
@[reducible] def HMap.kind : Objects.Kind (HMap K) (HMapTable K V) AlTag (HMapCell K V) where
  owned := owned
  Holds := Held
  live := fun held mine => held.rep.live mine
  congr := fun held agree => ⟨held.rep.congr agree, held.shape, held.idle, held.keyed⟩

/-- The live blocks are the bucket arrays and the nodes of the objects. -/
abbrev Invariant (s : HMapObjects K V) (tables : Nat -> HMapTable K V) : Prop :=
  Objects.Invariant HMap.kind s tables

/-- The invariant holds in the later state, and only the objects listed have changed. -/
abbrev Leads (s : HMapObjects K V) (tables : Nat -> HMapTable K V) (touched : List Nat)
    (later : HMapObjects K V) : Prop :=
  Objects.Leads HMap.kind s tables touched later

namespace Invariant

variable {tables : Nat -> HMapTable K V} {obj : Nat} {mem : HMapMem K V} {after : HMap K}
  {changed : HMapTable K V}

theorem start (answers : Nat -> Option Addr) :
    Invariant (⟨fun _ => inert, ⟨fun _ => none, answers, 0⟩⟩ : HMapObjects K V) (fun _ => []) :=
  Objects.Invariant.start inert Held.inert rfl answers

theorem heldBy (invariant : Invariant s tables) (obj : Nat) :
    Held s.mem.blocks (s.objs obj) (tables obj) :=
  Objects.Invariant.held invariant obj

theorem tended (invariant : Invariant s tables)
    (tends : Tends s.mem mem (s.objs obj) after (tables obj) changed) :
    Invariant ⟨update s.objs obj after, mem⟩ (update tables obj changed) := by
  have steps := tends.steps
  refine invariant.act steps.evolves (Held.of_shape steps.rep steps.shape ?_)
  intro lawful
  have before := lawful.congr steps.eq_eq.symm steps.hasher_eq.symm
  exact (tends.keyed before ((invariant.heldBy obj).keyed before)).congr steps.eq_eq
    steps.hasher_eq

/-- An object that owned nothing is overwritten by one that was built. -/
theorem born (invariant : Invariant s tables) (bare : (s.objs obj).buckets = none)
    (born : Born s.mem.blocks mem.blocks after changed)
    (keyed : Lawful after -> Keyed after changed.flatten) :
    Invariant ⟨update s.objs obj after, mem⟩ (update tables obj changed) := by
  have nothing : owned (s.objs obj) (tables obj) = [] := by
    rw [(invariant.heldBy obj).rep.none_iff.mp bare, owned, bare]
    rfl
  refine invariant.act ?_ (Held.of_shape born.rep born.shape keyed)
  change Evolves _ _ (owned (s.objs obj) (tables obj)) _
  rw [nothing]
  exact born.evolves

theorem gone (invariant : Invariant s tables)
    (gone : Evolves s.mem.blocks mem.blocks (owned (s.objs obj) (tables obj)) []) :
    Invariant ⟨update s.objs obj inert, mem⟩ (update tables obj []) :=
  invariant.act gone Held.inert

end Invariant

/-! ## Constructors -/

/-- A constructor built an object of fresh blocks, or left no trace. -/
def Built (blocks : Blocks AlTag (HMapCell K V)) (result : Status × Option (HMap K))
    (mem : HMapMem K V) : Prop :=
  (exists map table, result = (.ok, some map) ∧ Born blocks mem.blocks map table ∧
    (Lawful map -> Keyed map table.flatten)) ∨
  (result = (.errNoMem, none) ∧ mem.blocks = blocks)

section Makers

variable {mem : HMapMem K V} {self : HMap K} {table : HMapTable K V} {key val node : Layout}
  {keyOffset valOffset : Nat} {hasher : K -> Hash} {eq : K -> K -> Bool} {al : Al} {cap : Nat}

theorem built_initRaw (buildable : Buildable key val al node keyOffset valOffset) :
    Ends (initRaw cap key val hasher eq al) mem (Built mem.blocks) := by
  refine ends_initRaw buildable (fun _ later same => Or.inr ⟨rfl, same⟩) ?_
  intro map table later born empty _ _
  exact Or.inl ⟨map, table, rfl, born, fun _ => by rw [empty]; exact Keyed.nil⟩

theorem built_fromSpans {keys : SpanView K} {vals : SpanView V}
    (buildable : Buildable keys.elem vals.elem al node keyOffset valOffset)
    (valType : vals.elem.isType = true) (sameLen : keys.len = vals.len) :
    Ends (fromSpans keys vals hasher eq al) mem (Built mem.blocks) := by
  refine ends_fromSpans buildable valType sameLen (fun later same => Or.inr ⟨rfl, same⟩) ?_
  intro map table later born _ inserts
  exact Or.inl ⟨map, table, rfl, born, fun lawful => inserts.keyed lawful Keyed.nil⟩

theorem built_copyWith (rep : Rep mem.blocks self table) (shape : Shape self table)
    (keyed : Lawful self -> Keyed self table.flatten) (real : al.isSome = true) :
    Ends (copyWith (V := V) self al) mem (Built mem.blocks) := by
  refine ends_copyWith rep shape real (fun later same => Or.inr ⟨rfl, same⟩) ?_
  intro map changed later copying
  have eqs : map.eq = self.eq := (congrArg HMap.eq copying.kind :)
  have hashers : map.hasher = self.hasher := (congrArg HMap.hasher copying.kind :)
  refine Or.inl ⟨map, changed, rfl, copying.born, fun lawful => ?_⟩
  have before := lawful.congr eqs.symm hashers.symm
  exact ((keyed before).copies before copying.perm).congr eqs hashers

theorem built_setInitCap (buildable : Buildable key HSet.noVal al node keyOffset valOffset) :
    Ends (HSet.initCap cap key hasher eq al) mem (Built mem.blocks) := by
  simp only [HSet.initCap, ends_bind, ends_require, buildable.keyType, buildable.real,
    true_and]
  exact built_initRaw buildable

theorem built_setFromSpan {span : SpanView K}
    (buildable : Buildable span.elem HSet.noVal al node keyOffset valOffset) :
    Ends (HSet.fromSpan span hasher eq al) mem (Built mem.blocks) := by
  simp only [HSet.fromSpan, HSet.initCap, ends_bind, ends_require, buildable.keyType,
    buildable.real, true_and]
  refine ends_initRaw buildable ?_ ?_
  · intro _ later same
    simp only [if_refused, ends_pure]
    exact Or.inr ⟨rfl, same⟩
  · intro map table later born empty _ kind
    have noVal : map.val.size = 0 := by
      rw [show map.val = HSet.noVal from (congrArg HMap.val kind :)]
      rfl
    have sameKeys : map.key = span.elem := (congrArg HMap.key kind :)
    simp only [if_granted, ends_bind, ends_demand_some,
      HSet.extend, HSet.ends_assertHSet born.shape noVal, ends_require, sameKeys, true_and]
    refine ends_insertAll born.rep born.shape (fun _ _ => Or.inr noVal) ?_
    intro st after changed last steps inserts
    have grown := born.trans steps
    have noVal' : after.val.size = 0 := by
      rw [steps.val_eq]
      exact noVal
    simp only [HSet.ends_assertHSet grown.shape noVal', ends_pure]
    cases st with
    | ok =>
        simp only [if_granted, ends_pure]
        refine Or.inl ⟨after, changed, rfl, grown, fun lawful => ?_⟩
        have before := lawful.congr steps.eq_eq.symm steps.hasher_eq.symm
        exact (inserts.keyed before (by rw [empty]; exact Keyed.nil)).congr steps.eq_eq
          steps.hasher_eq
    | errNoMem =>
        simp only [if_refused, ends_bind, HSet.deinit]
        refine ends_deinit grown.rep grown.shape ?_
        intro final gone
        simp only [ends_pure]
        exact Or.inr ⟨rfl, grown.undo gone⟩

end Makers

namespace Invariant

open Objects HMapObjects

variable {tables : Nat -> HMapTable K V}

/-- Every constructor builds, or leaves no trace. -/
theorem made (invariant : Invariant s tables) (maker : Maker K V) (allowed : maker.Allowed s) :
    Ends maker.make s (fun result later =>
      later.objs = s.objs ∧ Built s.mem.blocks result later.mem) := by
  cases maker with
  | initCap cap key val hasher eq al =>
      rcases allowed with ⟨⟨node, keyOffset, valOffset, buildable⟩, valType⟩
      simp only [Maker.make, ends_within, initCap, ends_bind, ends_require, valType,
        true_and]
      exact (built_initRaw buildable)
  | fromSpans keys vals hasher eq al =>
      rcases allowed with ⟨⟨node, keyOffset, valOffset, buildable⟩, valType, sameLen⟩
      simp only [Maker.make, ends_within, true_and]
      exact built_fromSpans buildable valType sameLen
  | copy self =>
      have held := invariant.heldBy self
      have shape := held.shape allowed
      simp only [Maker.make, ends_bind, ends_load, ends_within,
        ends_assertHMap (shape.asserts held.rep), true_and]
      exact built_copyWith held.rep shape held.keyed allowed
  | copyWith self al =>
      have held := invariant.heldBy self
      simp only [Maker.make, ends_bind, ends_load, ends_within, true_and]
      exact built_copyWith held.rep (held.shape allowed.1) held.keyed allowed.2
  | setInitCap cap key hasher eq al =>
      rcases allowed with ⟨node, keyOffset, valOffset, buildable⟩
      simp only [Maker.make, ends_within, true_and]
      exact built_setInitCap buildable
  | setFromSpan span hasher eq al =>
      rcases allowed with ⟨node, keyOffset, valOffset, buildable⟩
      simp only [Maker.make, ends_within, true_and]
      exact built_setFromSpan buildable
  | setCopy self =>
      have held := invariant.heldBy self
      have shape := held.shape allowed.1
      simp only [Maker.make, ends_bind, ends_load, ends_within, HSet.copyWith,
        HSet.ends_assertHSet shape allowed.2, true_and]
      exact built_copyWith held.rep shape held.keyed allowed.1
  | setCopyWith self al =>
      have held := invariant.heldBy self
      have shape := held.shape allowed.1
      simp only [Maker.make, ends_bind, ends_load, ends_within, HSet.copyWith,
        HSet.ends_assertHSet shape allowed.2.1, true_and]
      exact built_copyWith held.rep shape held.keyed allowed.2.2

/-- An object that is built goes to a variable that owned nothing. -/
theorem filled (invariant : Invariant s tables) {out : Nat}
    (bare : (s.objs out).buckets = none) {result : Status × Option (HMap K)} {later : HMapObjects K V}
    (sameMaps : later.objs = s.objs) (built : Built s.mem.blocks result later.mem) :
    Ends (fill out result) later (fun st last => Leads s tables [out] last ∧
      (st ≠ .ok -> last.objs = s.objs ∧ last.mem.blocks = s.mem.blocks)) := by
  rcases built with ⟨map, table, rfl, born, keyed⟩ | ⟨rfl, same⟩
  · simp only [fill, ends_bind, ends_store, ends_pure, sameMaps]
    exact ⟨Objects.Leads.update (invariant.born bare born keyed) List.mem_cons_self,
      fun impossible => absurd rfl impossible⟩
  · have stays : later = { s with mem := later.mem } := by
      rw [← sameMaps]
    simp only [fill, ends_pure]
    rw [stays]
    exact ⟨Objects.Leads.same_blocks invariant same, fun _ => ⟨rfl, same⟩⟩

/-! ## Assignment and exchange -/

theorem ends_expectSame {a b : HMap K} (alike : Call.Alike a b) {mem : HMapMem K V}
    {post : Unit -> HMapMem K V -> Prop} :
    Ends (expectSame (V := V) a b) mem post <-> post () mem := by
  simp only [expectSame, ends_require, and_iff_right_iff_imp]
  exact fun _ => alike

theorem copyAssigned (invariant : Invariant s tables) {self other : Nat}
    (realSelf : (s.objs self).al.isSome = true) (realOther : (s.objs other).al.isSome = true)
    (alike : Call.Alike (s.objs self) (s.objs other)) :
    Ends (HMapObjects.copyAssign self other) s (fun st later => Leads s tables [self] later ∧
      (later.objs self).al.isSome = true ∧ (later.objs self).val = (s.objs self).val ∧
      (st ≠ .ok -> later.objs = s.objs ∧ later.mem.blocks = s.mem.blocks)) := by
  have heldSelf := invariant.heldBy self
  have heldOther := invariant.heldBy other
  have shapeSelf := heldSelf.shape realSelf
  have shapeOther := heldOther.shape realOther
  simp only [HMapObjects.copyAssign, ends_bind, ends_load, ends_within,
    ends_assertHMap (shapeSelf.asserts heldSelf.rep),
    ends_assertHMap (shapeOther.asserts heldOther.rep), ends_expectSame alike]
  by_cases same : self = other
  · rw [if_pos same, ends_pure]
    exact ⟨Objects.Leads.refl invariant, realSelf, rfl, fun impossible => absurd rfl impossible⟩
  · simp only [if_neg same, ends_bind, ends_within]
    refine ends_copyWith heldOther.rep shapeOther shapeSelf.real ?_ ?_
    · intro later blocksSame
      simp only [if_refused, ends_pure]
      exact ⟨Objects.Leads.same_blocks invariant blocksSame, realSelf, trivial, fun _ => ⟨trivial, blocksSame⟩⟩
    · intro clone changed later copying
      have born := copying.born
      have eqs : clone.eq = (s.objs other).eq := (congrArg HMap.eq copying.kind :)
      have hashers : clone.hasher = (s.objs other).hasher := (congrArg HMap.hasher copying.kind :)
      have vals : clone.val = (s.objs other).val := (congrArg HMap.val copying.kind :)
      simp only [if_granted, ends_bind, ends_within]
      refine ends_deinit (born.others heldSelf.rep) shapeSelf ?_
      intro last gone
      have kept : Rep last.blocks clone changed := by
        refine born.rep.congr fun addr mine => gone.keeps ?_ (born.rep.live mine)
        exact fun also => heldSelf.rep.live also (born.evolves.fresh addr mine List.not_mem_nil)
      simp only [ends_demand_some, ends_store,
        ends_assertHMap (born.shape.asserts kept), ends_pure]
      refine ⟨Objects.Leads.update (invariant.act (born.evolves.replace gone)
        (Held.of_shape kept born.shape ?_)) List.mem_cons_self, ?_, ?_,
        fun impossible => absurd rfl impossible⟩
      · intro lawful
        have before := lawful.congr eqs.symm hashers.symm
        exact ((heldOther.keyed before).copies before copying.perm).congr eqs hashers
      · rw [update_self]
        exact born.shape.real
      · rw [update_self, vals]
        exact alike.2.symm

/-- Deinitialising any object, initialised or inert. -/
theorem deinitialised (invariant : Invariant s tables) (self : Nat)
    {post : HMap K -> HMapMem K V -> Prop}
    (holds : forall later : HMapMem K V,
      Invariant ⟨update s.objs self inert, later⟩ (update tables self []) ->
      post inert later) :
    Ends (deinit (V := V) (s.objs self)) s.mem post := by
  have held := invariant.heldBy self
  cases real : (s.objs self).al with
  | none =>
      rw [held.idle real]
      rw [ends_deinit_inert]
      refine holds s.mem (invariant.gone ?_)
      have nothing : owned (s.objs self) (tables self) = [] := by
        have bare : (s.objs self).buckets = none := by
          rw [held.idle real]
          rfl
        rw [held.rep.none_iff.mp bare, owned, bare]
        rfl
      rw [nothing]
      exact Evolves.refl _ _
  | some al =>
      have shape := held.shape (by rw [real]; rfl)
      exact ends_deinit held.rep shape fun later gone => holds later (invariant.gone gone)

theorem moveAssigned (invariant : Invariant s tables) {self other : Nat}
    (realOther : (s.objs other).al.isSome = true)
    (alike : (s.objs self).al.isSome = true -> Call.Alike (s.objs self) (s.objs other)) :
    Ends (HMapObjects.moveAssign self other) s (fun _ later => Leads s tables [self, other] later ∧
      (later.objs self).al.isSome = true ∧ (later.objs self).val = (s.objs other).val ∧
      (later.objs other).al.isSome = true ∧ (later.objs other).val = (s.objs other).val) := by
  have heldSelf := invariant.heldBy self
  have heldOther := invariant.heldBy other
  have shapeOther := heldOther.shape realOther
  have rest : Ends (if self = other then return () else do
      store self (← within (deinit (s.objs self)))
      store self (s.objs other)
      store other (forgetBuckets (s.objs other))
      within (assertHMap (s.objs other))
      within (assertHMap (forgetBuckets (s.objs other)))) s (fun _ later =>
      Leads s tables [self, other] later ∧
      (later.objs self).al.isSome = true ∧ (later.objs self).val = (s.objs other).val ∧
      (later.objs other).al.isSome = true ∧ (later.objs other).val = (s.objs other).val) := by
    by_cases same : self = other
    · rw [if_pos same, ends_pure]
      subst same
      exact ⟨Objects.Leads.refl invariant, realOther, rfl, realOther, rfl⟩
    · have different : other ≠ self := fun equal => same equal.symm
      simp only [if_neg same, ends_bind, ends_within]
      refine invariant.deinitialised self ?_
      intro later cleared
      have forgotten : Held later.blocks (forgetBuckets (s.objs other)) ([] : HMapTable K V) :=
        Held.of_shape (Rep.empty rfl) shapeOther.forget fun _ => Keyed.nil
      have nothing : owned (update s.objs self inert self)
          (update tables self [] self) = [] := by
        rw [update_self, update_self]
        rfl
      have final := cleared.moved other nothing forgotten rfl
      simp only [update_idem, update_of_ne different] at final
      simp only [ends_store, update_idem,
        ends_assertHMap (shapeOther.asserts heldOther.rep),
        ends_assertHMap (shapeOther.forget.asserts forgotten.rep)]
      refine ⟨⟨_, final, fun var outside => ?_⟩, ?_⟩
      · rw [List.mem_pair, not_or] at outside
        simp only [update_of_ne outside.2, update_of_ne outside.1, and_self]
      · rw [update_of_ne same, update_self, update_self]
        exact ⟨realOther, rfl, realOther, rfl⟩
  simp only [HMapObjects.moveAssign, ends_bind, ends_load, ends_within,
    ends_assertHMap (shapeOther.asserts heldOther.rep)]
  by_cases real : (s.objs self).al.isSome = true
  · simp only [if_pos real, ends_bind, ends_within, ends_expectSame (alike real),
      ends_assertHMap ((heldSelf.shape real).asserts heldSelf.rep)]
    exact rest
  · rw [if_neg real]
    exact rest

theorem swapped (invariant : Invariant s tables) {self other : Nat}
    (realSelf : (s.objs self).al.isSome = true) (realOther : (s.objs other).al.isSome = true)
    (alike : Call.Alike (s.objs self) (s.objs other)) :
    Ends (HMapObjects.swap self other) s (fun _ later => Leads s tables [self, other] later ∧
      (later.objs self).al.isSome = true ∧ (later.objs self).val = (s.objs other).val ∧
      (later.objs other).al.isSome = true ∧ (later.objs other).val = (s.objs other).val) := by
  have assertsSelf := ((invariant.heldBy self).shape realSelf).asserts (invariant.heldBy self).rep
  have assertsOther := ((invariant.heldBy other).shape realOther).asserts (invariant.heldBy other).rep
  simp only [HMapObjects.swap, ends_bind, ends_load, ends_within, ends_assertHMap assertsSelf,
    ends_assertHMap assertsOther, ends_expectSame alike]
  by_cases same : self = other
  · rw [if_pos same, ends_pure]
    subst same
    exact ⟨Objects.Leads.refl invariant, realSelf, rfl, realSelf, rfl⟩
  · have traded := invariant.traded self other
    rw [← update_update_eq_swap] at traded
    simp only [if_neg same, ends_store, ends_within, ends_bind, ends_assertHMap assertsSelf,
      ends_assertHMap assertsOther]
    refine ⟨⟨_, traded, fun var outside => ?_⟩, ?_⟩
    · rw [List.mem_pair, not_or] at outside
      dsimp only
      rw [update_of_ne outside.2, update_of_ne outside.1,
        Equiv.swap_apply_of_ne_of_ne outside.1 outside.2]
      exact ⟨rfl, rfl⟩
    · rw [update_of_ne same, update_self, update_self]
      exact ⟨realOther, rfl, realSelf, alike.2⟩

/-! ## Operations on two sets -/

theorem ends_assertPair (invariant : Invariant s tables) {self other : Nat}
    (setSelf : Call.IsSet (s.objs self)) (setOther : Call.IsSet (s.objs other))
    (sameKey : (s.objs self).key = (s.objs other).key)
    {post : HSet K × HSet K -> HMapObjects K V -> Prop} :
    Ends (assertPair self other) s post <-> post (s.objs self, s.objs other) s := by
  simp only [assertPair, ends_bind, ends_load, ends_within,
    HSet.ends_assertHSet ((invariant.heldBy self).shape setSelf.1) setSelf.2,
    HSet.ends_assertHSet ((invariant.heldBy other).shape setOther.1) setOther.2, HSet.expectSame,
    ends_require, sameKey, true_and, ends_pure]

/-- The checks at the end of an operation on sets. -/
theorem ends_assertSet (invariant : Invariant s tables) {self : Nat}
    (set_ : Call.IsSet (s.objs self)) {post : Unit -> HMapObjects K V -> Prop} :
    Ends (within (HSet.assertHSet (s.objs self))) s post <-> post () s := by
  simp only [ends_within,
    HSet.ends_assertHSet ((invariant.heldBy self).shape set_.1) set_.2]

theorem setCopyAssigned (invariant : Invariant s tables) {self other : Nat}
    (setSelf : Call.IsSet (s.objs self)) (setOther : Call.IsSet (s.objs other))
    (alike : Call.Alike (s.objs self) (s.objs other)) :
    Ends (HMapObjects.setCopyAssign self other) s (fun st later => Leads s tables [self] later ∧
      (st ≠ .ok -> later.objs = s.objs ∧ later.mem.blocks = s.mem.blocks)) := by
  simp only [HMapObjects.setCopyAssign, ends_bind, ends_load,
    invariant.ends_assertPair setSelf setOther alike.1]
  refine (invariant.copyAssigned setSelf.1 setOther.1 alike).mono ?_
  rintro st later ⟨⟨changed, now, frame⟩, real, val, failed⟩
  simp only [Invariant.ends_assertSet now ⟨real, by rw [val]; exact setSelf.2⟩, ends_pure]
  exact ⟨⟨changed, now, frame⟩, failed⟩

theorem paired (invariant : Invariant s tables) (op : PairOp) {self other : Nat}
    (setSelf : Call.IsSet (s.objs self)) (setOther : Call.IsSet (s.objs other))
    (sameKey : (s.objs self).key = (s.objs other).key) :
    Ends (HMapObjects.pair op self other) s (fun _ later => Leads s tables [self] later) := by
  have heldSelf := invariant.heldBy self
  have heldOther := invariant.heldBy other
  have shapeSelf := heldSelf.shape setSelf.1
  simp only [HMapObjects.pair, ends_bind, invariant.ends_assertPair setSelf setOther sameKey]
  by_cases same : self = other
  · simp only [if_pos same, ends_bind, ends_within, ends_store]
    have unchanged : Ends (pure (s.objs self) : Run (HMapMem K V) (HSet K)) s.mem
        (fun after mem => exists changed, Tends s.mem mem (s.objs self) after (tables self)
          changed) :=
      (ends_pure _ _ _).mpr ⟨_, Tends.refl heldSelf.rep shapeSelf⟩
    have cleared : Ends (do
        let self ← HMap.clear (s.objs self)
        HSet.assertHSet self
        return self) s.mem (fun after mem => exists changed,
          Tends s.mem mem (s.objs self) after (tables self) changed) := by
      simp only [ends_bind]
      refine ends_clear heldSelf.rep shapeSelf ?_
      intro later steps
      simp only [HSet.ends_assertHSet steps.shape setSelf.2, ends_pure]
      refine ⟨_, .of_sublist steps ?_⟩
      rw [List.flatten_replicate_nil]
      exact List.nil_sublist _
    have either : Ends (onSame op (s.objs self)) s.mem (fun after mem => exists changed,
        Tends s.mem mem (s.objs self) after (tables self) changed) := by
      cases op with
      | union => exact unchanged
      | intersection => exact unchanged
      | difference => exact cleared
      | symmetricDifference => exact cleared
    refine either.mono ?_
    rintro after mem ⟨changed, tends⟩
    exact Objects.Leads.update (invariant.tended tends) List.mem_cons_self
  · simp only [if_neg same, ends_bind, ends_within, ends_store]
    refine (HSet.tends_pair heldSelf.rep shapeSelf setSelf.2 heldOther.rep
      (heldOther.shape setOther.1) (invariant.apart fun equal => same equal.symm) op).mono ?_
    rintro after mem ⟨changed, tends⟩
    exact Objects.Leads.update (invariant.tended tends) List.mem_cons_self

/-! ## Questions -/

theorem queried (invariant : Invariant s tables) {self : Nat} (asked : MapQuery K)
    (real : (s.objs self).al.isSome = true) (allowed : asked.Allowed (s.objs self) s.mem) :
    Ends (asked.run (s.objs self)) s.mem (fun _ mem => mem = s.mem) := by
  have rep := (invariant.heldBy self).rep
  have shape := (invariant.heldBy self).shape real
  cases asked with
  | get key =>
      simp only [MapQuery.run, ends_bind]
      exact ends_get rep shape ((ends_pure _ _ _).mpr rfl)
  | contains key =>
      simp only [MapQuery.run, ends_bind]
      exact ends_contains rep shape ((ends_pure _ _ _).mpr rfl)
  | find key =>
      simp only [MapQuery.run, ends_bind]
      exact ends_find rep shape ((ends_pure _ _ _).mpr rfl)
  | firstNode =>
      simp only [MapQuery.run, ends_bind]
      exact ends_firstNode rep shape ((ends_pure _ _ _).mpr rfl)
  | nodeNext node =>
      rcases Walked.mem allowed rep shape with ⟨entry, member, rfl⟩
      rcases List.append_of_mem member with ⟨left, right, split⟩
      simp only [MapQuery.run, ends_bind]
      exact ends_nodeNext rep shape split ((ends_pure _ _ _).mpr rfl)
  | nodeKey node =>
      rcases Walked.mem allowed rep shape with ⟨entry, member, rfl⟩
      simp only [MapQuery.run, ends_bind, ends_nodeKey rep shape member, ends_pure]
  | nodeVal node =>
      rcases Walked.mem allowed rep shape with ⟨entry, member, rfl⟩
      simp only [MapQuery.run, ends_bind, ends_nodeVal rep shape member, ends_pure]

theorem compared (invariant : Invariant s tables) {self other : Nat} (asked : PairQuery V)
    (allowed : (Call.compare (C := C) asked self other).Allowed s) :
    Ends (asked.run self other) s (fun _ later => later = s) := by
  rcases allowed with ⟨realSelf, realOther, allowed⟩
  have repSelf := (invariant.heldBy self).rep
  have repOther := (invariant.heldBy other).rep
  have shapeSelf := (invariant.heldBy self).shape realSelf
  have shapeOther := (invariant.heldBy other).shape realOther
  cases asked with
  | eq valEq =>
      simp only [PairQuery.run, HMapObjects.eq, ends_bind, ends_load, ends_within,
        ends_assertHMap (shapeSelf.asserts repSelf), ends_assertHMap (shapeOther.asserts repOther),
        ends_expectSame allowed]
      by_cases same : self = other
      · rw [if_pos same, ends_pure]
      · rw [if_neg same, ends_within]
        exact ends_eqImpl repSelf shapeSelf repOther shapeOther rfl
  | setEq =>
      simp only [PairQuery.run, setEq, ends_bind,
        invariant.ends_assertPair ⟨realSelf, allowed.1⟩ ⟨realOther, allowed.2.1⟩ allowed.2.2]
      by_cases same : self = other
      · rw [if_pos same, ends_pure]
      · rw [if_neg same]
        by_cases lens : (s.objs self).len ≠ (s.objs other).len
        · rw [if_pos lens, ends_pure]
        · rw [if_neg lens, ends_within]
          exact HSet.ends_keysAllIn repSelf shapeSelf repOther shapeOther rfl
  | isSubset =>
      simp only [PairQuery.run, isSubset, ends_bind,
        invariant.ends_assertPair ⟨realSelf, allowed.1⟩ ⟨realOther, allowed.2.1⟩ allowed.2.2]
      by_cases same : self = other
      · rw [if_pos same, ends_pure]
      · rw [if_neg same]
        by_cases lens : (s.objs self).len > (s.objs other).len
        · rw [if_pos lens, ends_pure]
        · rw [if_neg lens, ends_within]
          exact HSet.ends_keysAllIn repSelf shapeSelf repOther shapeOther rfl
  | intersects =>
      simp only [PairQuery.run, intersects, ends_bind,
        invariant.ends_assertPair ⟨realSelf, allowed.1⟩ ⟨realOther, allowed.2.1⟩ allowed.2.2]
      by_cases lens : (s.objs other).len < (s.objs self).len
      · rw [if_pos lens, ends_within]
        exact HSet.ends_anyKeyIn repOther shapeOther repSelf shapeSelf rfl
      · rw [if_neg lens, ends_within]
        exact HSet.ends_anyKeyIn repSelf shapeSelf repOther shapeOther rfl

/-! ## Every call -/

/-- Whatever call is made and whatever the allocator answers: the call ends,
and the live blocks are divided among the objects again. -/
theorem run (invariant : Invariant s tables) (call : Call K V C) (allowed : call.Allowed s) :
    Ends call.run s (fun _ later => Leads s tables call.touched later) := by
  cases call with
  | init out key val hasher eq al =>
      rcases allowed with ⟨bare, ⟨node, keyOffset, valOffset, buildable⟩, valType⟩
      simp only [Call.run, ends_bind, ends_within]
      refine ends_init buildable valType ?_
      intro map table later born empty _
      simp only [ends_store, ends_pure]
      exact Objects.Leads.update (invariant.born bare born fun _ => by rw [empty]; exact Keyed.nil)
        List.mem_cons_self
  | setInit out key hasher eq al =>
      rcases allowed with ⟨bare, node, keyOffset, valOffset, buildable⟩
      simp only [Call.run, HSet.init, HSet.initCap, ends_bind, ends_within, ends_require,
        buildable.keyType, buildable.real, true_and]
      refine ends_initRaw buildable (fun impossible => absurd impossible (Nat.lt_irrefl 0)) ?_
      intro map table later born empty _ _
      simp only [ends_demand_some, true_and, ends_store, ends_pure]
      exact Objects.Leads.update (invariant.born bare born fun _ => by rw [empty]; exact Keyed.nil)
        List.mem_cons_self
  | make out maker =>
      simp only [Call.run, ends_bind]
      refine (invariant.made maker allowed.2).mono ?_
      rintro result later ⟨sameMaps, built⟩
      exact (invariant.filled allowed.1 sameMaps built).mono fun _ _ => And.left
  | deinit self =>
      simp only [Call.run, ends_bind, ends_load, ends_within]
      refine invariant.deinitialised self ?_
      intro later cleared
      simp only [ends_store, ends_pure]
      exact Objects.Leads.update cleared List.mem_cons_self
  | copyAssign self other =>
      exact (invariant.copyAssigned allowed.1 allowed.2.1 allowed.2.2).mono fun _ _ => And.left
  | moveAssign self other =>
      simp only [Call.run, ends_bind, ends_pure]
      exact (invariant.moveAssigned allowed.1 allowed.2).mono fun _ _ => And.left
  | swap self other =>
      simp only [Call.run, ends_bind, ends_pure]
      exact (invariant.swapped allowed.1 allowed.2.1 allowed.2.2).mono fun _ _ => And.left
  | setCopyAssign self other =>
      exact (invariant.setCopyAssigned allowed.1 allowed.2.1 allowed.2.2).mono fun _ _ => And.left
  | setMoveAssign self other =>
      rcases allowed with ⟨setOther, ifSelf⟩
      have shapeOther := (invariant.heldBy other).shape setOther.1
      have rest : (moveAssign self other).Ends s fun _ t =>
          (HSet.assertHSet (t.objs self)).Ends t.mem fun _ mem =>
            (HSet.assertHSet (t.objs other)).Ends mem fun _ mem =>
              Leads s tables [self, other] { t with mem := mem } := by
        refine (invariant.moveAssigned setOther.1 fun real => (ifSelf real).2).mono ?_
        rintro _ later ⟨⟨changed, now, frame⟩, realSelf, valSelf, realOther, valOther⟩
        rw [HSet.ends_assertHSet ((Invariant.heldBy now self).shape realSelf) (by rw [valSelf]; exact setOther.2),
          HSet.ends_assertHSet ((Invariant.heldBy now other).shape realOther) (by rw [valOther]; exact setOther.2)]
        exact ⟨changed, now, frame⟩
      simp only [Call.run, ends_bind, ends_pure]
      unfold setMoveAssign
      simp only [ends_bind, ends_load, ends_within,
        HSet.ends_assertHSet shapeOther setOther.2]
      by_cases real : (s.objs self).al.isSome = true
      · have shapeSelf := (invariant.heldBy self).shape real
        simp only [if_pos real, ends_bind, ends_within,
          HSet.ends_assertHSet shapeSelf (ifSelf real).1, HSet.expectSame, ends_require,
          (ifSelf real).2.1, true_and, ends_load]
        exact rest
      · simp only [if_neg real, ends_bind, ends_load, ends_within]
        exact rest
  | setSwap self other =>
      rcases allowed with ⟨setSelf, setOther, alike⟩
      simp only [Call.run, HMapObjects.setSwap, ends_bind, ends_load, ends_pure,
        invariant.ends_assertPair setSelf setOther alike.1]
      refine (invariant.swapped setSelf.1 setOther.1 alike).mono ?_
      rintro _ later ⟨⟨changed, now, frame⟩, realSelf, valSelf, realOther, valOther⟩
      simp only [Invariant.ends_assertSet now ⟨realSelf, by rw [valSelf]; exact setOther.2⟩,
        Invariant.ends_assertSet now ⟨realOther, by rw [valOther]; exact setOther.2⟩]
      exact ⟨changed, now, frame⟩
  | map self op =>
      have held := invariant.heldBy self
      simp only [Call.run, ends_bind, ends_load, ends_within]
      refine (tends_run op held.rep (held.shape allowed.1) allowed.2).mono ?_
      rintro result mem ⟨changed, tends⟩
      simp only [ends_store, ends_pure]
      exact Objects.Leads.update (invariant.tended tends) List.mem_cons_self
  | set self op =>
      have held := invariant.heldBy self
      simp only [Call.run, ends_bind, ends_load, ends_within]
      refine (HSet.tends_run op held.rep (held.shape allowed.1) allowed.2).mono ?_
      rintro after mem ⟨changed, tends⟩
      simp only [ends_store, ends_pure]
      exact Objects.Leads.update (invariant.tended tends) List.mem_cons_self
  | pair op self other =>
      simp only [Call.run, ends_bind, ends_pure]
      exact invariant.paired op allowed.1 allowed.2.1 allowed.2.2
  | query self asked =>
      simp only [Call.run, ends_bind, ends_load, ends_within, ends_pure]
      refine (invariant.queried asked allowed.1 allowed.2).mono ?_
      rintro _ mem rfl
      exact Objects.Leads.refl invariant
  | compare asked self other =>
      simp only [Call.run, ends_bind, ends_pure]
      refine (invariant.compared asked allowed).mono ?_
      rintro _ later rfl
      exact Objects.Leads.refl invariant

end Invariant

/-- In every state a program comes to, the live blocks are the objects'. -/
theorem Reachable.invariant (reachable : Reachable C s) : exists tables, Invariant s tables := by
  induction reachable with
  | start answers => exact ⟨_, Invariant.start answers⟩
  | call before call allowed ran ih =>
      rcases ih with ⟨tables, invariant⟩
      rcases (invariant.run call allowed).of_eq ran with ⟨changed, now, _⟩
      exact ⟨changed, now⟩

end TerseDsa
