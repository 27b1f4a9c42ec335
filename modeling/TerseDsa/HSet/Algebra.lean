import TerseDsa.HMap.Stability
import TerseDsa.HMap.Granted
import TerseDsa.HSet.Classes
import TerseDsa.HMap.Discipline

namespace TerseDsa

open Foundation Run HMap

/-!
# The set operations are the set operations

Each operation edits one table by the keys of another, one key after another or
by asking about every entry of its own.  What is left stands for the set that
the operation is named for, whichever way it went.
-/

variable {K V C : Type}

/-- Call the operation on two different objects; those without a status succeed. -/
def PairOp.attempt : PairOp -> HSet K -> HSet K -> Run (HMapMem K V) (Status × HSet K)
  | union, self, other => HSet.union self other
  | intersection, self, other => do return (.ok, ← HSet.intersection self other)
  | difference, self, other => do return (.ok, ← HSet.difference self other)
  | symmetricDifference, self, other => HSet.symmetricDifference self other

namespace HSet

variable {heap later : HMapMem K V} {self after other : HMap K} {table changed others : HMapTable K V}
  {entry : HMapEntry K V} {entries : List (HMapEntry K V)} {classes : Setoid K} {easy : Prop}

/-- The set has exactly the entries: a walk passes them, and a key is in the set
if its class is one of theirs, of which there are as many as the set counts. -/
structure Denotes (classes : Setoid K) (map : HSet K) (heap : HMapMem K V)
    (entries : List (HMapEntry K V)) : Prop where
  walked : Ends (walk map) heap fun found later => found = entries ∧ later = heap
  contains : forall key, Ends (HSet.contains map key) heap fun found later =>
    (found = true <-> Assoc.cls classes key ∈ classesOf classes entries) ∧ later = heap
  len : map.len = (classesOf classes entries).ncard

theorem denotes (rep : Rep heap.blocks self table) (shape : Shape self table)
    (keyed : Keyed self table.flatten) (compares : Compares self classes) (lawful : Lawful self)
    (noVal : self.val.size = 0) : Denotes classes self heap table.flatten := by
  refine ⟨ends_walk rep shape ⟨rfl, rfl⟩, fun key => ?_, ?_⟩
  · simp only [HSet.contains, ends_bind, ends_assertHSet shape noVal]
    exact ends_contains rep shape ⟨entryFor_isSome_iff compares lawful shape keyed, rfl⟩
  · rw [ncard_classesOf compares keyed, shape.len]

/-! ## One key -/

theorem mem_of_split {left right : List (HMapEntry K V)} (split : entries = left ++ entry :: right) :
    entry ∈ entries := by
  rw [split]
  exact List.mem_append_right _ List.mem_cons_self

/-- The callbacks are as they were, and the keys are apart still. -/
theorem callbacks_of_tends (tends : Tends heap later self after table changed)
    (compares : Compares self classes) (lawful : Lawful self) (keyed : Keyed self table.flatten) :
    Compares after classes ∧ Lawful after ∧ Keyed after changed.flatten := by
  have eqs := tends.steps.eq_eq
  have hashers := tends.steps.hasher_eq
  refine ⟨?_, lawful.congr eqs hashers, (tends.keyed lawful keyed).congr eqs hashers⟩
  unfold Compares
  rw [eqs]
  exact compares

/-- A key is taken out of a set that is being edited. -/
theorem ends_edit_remove {key : K} (tends : Tends heap later self after table changed)
    (generous : easy -> later.Generous) (fact : Bool -> List (HMapEntry K V) -> Prop)
    (holds : forall (out : Bool × Option (K × Option V)) (last : HMapTable K V),
      Takes after key changed.flatten out last.flatten -> fact out.1 last.flatten) :
    Ends (HMap.remove (V := V) after key) later (fun result latest => exists last,
      Tends heap latest self result.2 table last ∧ (easy -> latest.Generous) ∧
        fact result.1 last.flatten) := by
  have removes : Ends (HMap.remove (V := V) after key) later fun result latest => exists last,
      Tends heap latest self result.2 table last ∧ fact result.1 last.flatten := by
    refine ends_remove tends.steps.rep tends.steps.shape ?_
    intro out final last latest steps takes
    exact ⟨last, tends.trans (.of_sublist steps (takes_sublist takes)), holds out last takes⟩
  have keeps : Allows (HMap.remove (V := V) after key) later fun _ latest =>
      easy -> latest.Generous :=
    fun result latest ran all => keeps_remove later (generous all) result latest ran
  refine (removes.and_allows keeps).mono ?_
  rintro result latest ⟨⟨last, tended, fact_⟩, kept⟩
  exact ⟨last, tended, kept, fact_⟩

/-- A key is put into a set that is being edited. -/
theorem ends_edit_insert {key : K} (noVal : self.val.size = 0)
    (tends : Tends heap later self after table changed) (generous : easy -> later.Generous)
    (small : easy -> after.len < 2 ^ 60) :
    Ends (HMap.insert (V := V) after key none) later (fun result latest => exists last,
      Tends heap latest self result.2.2 table last ∧
        Inserts after key none changed.flatten (result.1, result.2.1) last.flatten ∧
        (easy -> result.1 = .ok ∧ latest.Generous)) := by
  have inserts : Ends (HMap.insert (V := V) after key none) later fun result latest => exists last,
      Tends heap latest self result.2.2 table last ∧
        Inserts after key none changed.flatten (result.1, result.2.1) last.flatten := by
    refine ends_insert tends.steps.rep tends.steps.shape (Or.inr (tends.val_size noVal)) ?_
    rintro ⟨st, isNew⟩ final last latest steps _ _ inserts
    exact ⟨last, tends.trans ⟨steps, inserts.keyed⟩, inserts⟩
  have granted : Allows (HMap.insert (V := V) after key none) later fun result latest =>
      easy -> result.1 = .ok ∧ latest.Generous :=
    fun result latest ran all => allows_insert (generous all)
      (Nat.ne_of_gt tends.steps.shape.nodeSized) (small all) result latest ran
  refine (inserts.and_allows granted).mono ?_
  rintro result latest ⟨⟨last, tended, inserted⟩, ok⟩
  exact ⟨last, tended, inserted, ok⟩

/-- While keys of `other` are to come, there is room for one more entry. -/
theorem room_of_edited {op : PairOp} {passed rest : List (HMapEntry K V)} (shape : Shape self table)
    (shapeO : Shape other others) (split : others.flatten = passed ++ entry :: rest)
    (tends : Tends heap later self after table changed)
    (edited : Edited classes op passed table.flatten changed.flatten)
    (small : self.len + other.len ≤ 2 ^ 60) : after.len < 2 ^ 60 := by
  have walked := congrArg List.length split
  have length := edited.length
  rw [List.length_append, List.length_cons, ← shapeO.len] at walked
  rw [← shape.len, ← tends.steps.shape.len] at length
  omega

/-! ## Walking one set and editing another -/

section Edit

variable (rep : Rep heap.blocks self table) (shape : Shape self table) (noVal : self.val.size = 0)
  (repO : Rep heap.blocks other others) (shapeO : Shape other others)
  (apart : forall addr, addr ∈ owned other others -> addr ∉ owned self table)

include rep shape repO shapeO apart

/-- The rule for a walk over `other` whose body edits `self`.  `fact passed now`
is what holds of the entries `now` when the entries `passed` have been; `easy` says
that nothing is refused. -/
theorem ends_forEach_edit {γ : Type} {body : Addr -> HMap K -> Run (HMapMem K V) (Run.Round (HMap K) γ)}
    {done : HMap K -> γ} {post : γ -> HMapMem K V -> Prop}
    (fact : List (HMapEntry K V) -> List (HMapEntry K V) -> Prop) (start : fact [] table.flatten)
    (easy : Prop) (atFirst : easy -> heap.Generous)
    (step : forall {h : HMapMem K V} {now : HMap K} {at_ : HMapTable K V}
        {passed rest : List (HMapEntry K V)} {entry : HMapEntry K V},
      others.flatten = passed ++ entry :: rest -> Tends heap h self now table at_ ->
      (easy -> h.Generous) -> Rep h.blocks other others -> fact passed at_.flatten ->
      Ends (body entry.addr now) h (fun round later =>
        match round with
        | .again next => exists changed, Tends heap later self next table changed ∧
            (easy -> later.Generous) ∧ fact (passed ++ [entry]) changed.flatten
        | .leave result => post result later))
    (finish : forall {h : HMapMem K V} {now : HMap K} {at_ : HMapTable K V},
      Tends heap h self now table at_ -> fact others.flatten at_.flatten -> post (done now) h) :
    Ends (forEach other body done self) heap post := by
  refine ends_forEach shapeO (fun rest now h => exists passed at_, others.flatten = passed ++ rest ∧
      Tends heap h self now table at_ ∧ (easy -> h.Generous) ∧ fact passed at_.flatten)
    ?_ ?_ ?_ ⟨[], table, rfl, Tends.refl rep shape, atFirst, start⟩
  · rintro _ _ _ ⟨_, _, _, tends, _⟩
    exact tends.others_stay repO apart
  · rintro entry rest now h _ ⟨passed, at_, split, tends, generous, holds⟩
    refine (step split tends generous (tends.others_stay repO apart) holds).mono ?_
    intro round later ended
    cases round with
    | leave result => exact ended
    | again next =>
        rcases ended with ⟨changed, tends, generous, holds⟩
        exact ⟨passed ++ [entry], changed, by rw [split, List.append_assoc]; rfl, tends, generous, holds⟩
  · rintro now h ⟨passed, at_, split, tends, _, holds⟩
    rw [List.append_nil] at split
    exact finish tends (split ▸ holds)

variable (compares : Compares self classes) (lawful : Lawful self) (keyed : Keyed self table.flatten)

include compares lawful keyed

/-- Removing the keys of `other` one by one. -/
theorem edits_removeAll : Ends (removeAll (V := V) self other) heap (fun after later =>
    exists changed, Tends heap later self after table changed ∧
      Edited classes .difference others.flatten table.flatten changed.flatten) := by
  refine ends_forEach_edit rep shape repO shapeO apart
    (fun passed now => Edited classes .difference passed table.flatten now)
    (Edited.refl Set.sdiff_empty) False False.elim ?_ (fun tends edited => ⟨_, tends, edited⟩)
  intro h now at_ passed rest entry split tends generous repNow edited
  simp only [ends_bind, ends_nodeKey repNow shapeO (mem_of_split split)]
  have now_ := callbacks_of_tends tends compares lawful keyed
  have removes := ends_edit_remove tends generous
    (fun _ now => Edited classes .difference (passed ++ [entry]) table.flatten now)
    fun out changed takes => edited.remove now_.1 now_.2.1 now_.2.2 takes
  exact removes.mono fun _ _ ended => (ends_pure _ _ _).mpr ended

include noVal

/-- Inserting the keys of `other`, until one is refused. -/
theorem edits_uniteAll : Ends (uniteAll (V := V) self other) heap (fun result later =>
    (exists changed, Tends heap later self result.2 table changed ∧
      Reached classes .union result.1 others.flatten table.flatten changed.flatten) ∧
    (heap.Generous -> self.len + other.len ≤ 2 ^ 60 -> result.1 = .ok)) := by
  refine ends_forEach_edit rep shape repO shapeO apart
    (fun passed now => Edited classes .union passed table.flatten now)
    (Edited.refl (Set.union_empty _)) (heap.Generous ∧ self.len + other.len ≤ 2 ^ 60) And.left ?_
    (fun tends edited => ⟨⟨_, tends, .of_done edited⟩, fun _ _ => rfl⟩)
  intro h now at_ passed rest entry split tends generous repNow edited
  have now_ := callbacks_of_tends tends compares lawful keyed
  simp only [ends_bind, ends_nodeKey repNow shapeO (mem_of_split split)]
  refine (ends_edit_insert noVal tends generous fun all =>
    room_of_edited shape shapeO split tends edited all.2).mono ?_
  rintro ⟨st, isNew, after⟩ later ⟨changed, tended, inserts, granted⟩
  cases st with
  | ok =>
      simp only [if_granted, ends_pure]
      exact ⟨changed, tended, fun all => (granted all).2, edited.unite now_.1 now_.2.1 now_.2.2
        (tends.val_size noVal) tends.steps.rep.distinct inserts⟩
  | errNoMem =>
      simp only [if_refused, ends_pure]
      exact ⟨⟨changed, tended, .of_refused now_.1 now_.2.1 now_.2.2 split edited inserts⟩,
        fun all small => by cases (granted ⟨all, small⟩).1⟩

/-- Flipping the keys of `other`, until one is refused. -/
theorem edits_flipAll (comparesO : Compares other classes) (lawfulO : Lawful other)
    (keyedO : Keyed other others.flatten) :
    Ends (flipAll (V := V) self other) heap (fun result later =>
      (exists changed, Tends heap later self result.2 table changed ∧
        Reached classes .symmetricDifference result.1 others.flatten table.flatten changed.flatten) ∧
      (heap.Generous -> self.len + other.len ≤ 2 ^ 60 -> result.1 = .ok)) := by
  refine ends_forEach_edit rep shape repO shapeO apart
    (fun passed now => Edited classes .symmetricDifference passed table.flatten now)
    (Edited.refl (symmDiff_bot _)) (heap.Generous ∧ self.len + other.len ≤ 2 ^ 60) And.left ?_
    (fun tends edited => ⟨⟨_, tends, .of_done edited⟩, fun _ _ => rfl⟩)
  intro h now at_ passed rest entry split tends generous repNow edited
  have now_ := callbacks_of_tends tends compares lawful keyed
  -- no key of this class has passed, since those of `other` are apart
  have fresh : Assoc.cls classes entry.key ∉ classesOf classes passed := by
    refine cls_notMem comparesO fun earlier inside => ?_
    have apart_ := keyedO.apart
    rw [split, List.pairwise_append] at apart_
    rw [lawfulO.comm]
    exact apart_.2.2 earlier inside entry List.mem_cons_self
  simp only [ends_bind, ends_nodeKey repNow shapeO (mem_of_split split)]
  have flips : forall (out : Bool × Option (K × Option V)) (changed : HMapTable K V),
      Takes now entry.key at_.flatten out changed.flatten ->
      (out.1 = true -> Edited classes .symmetricDifference (passed ++ [entry]) table.flatten changed.flatten) ∧
        (out.1 = false -> changed.flatten = at_.flatten ∧
          Assoc.cls classes entry.key ∉ classesOf classes changed.flatten) := by
    rintro ⟨removed, given⟩ changed takes
    constructor
    · rintro rfl
      exact edited.flipOut now_.1 now_.2.1 now_.2.2 fresh takes
    · rintro rfl
      have was := (takes_classes now_.1 now_.2.1 now_.2.2 takes).1
      have same := takes_absent takes
      exact ⟨same, same ▸ fun there => absurd (was.mpr there) Bool.false_ne_true⟩
  refine (ends_edit_remove tends generous (fun removed now =>
      (removed = true -> Edited classes .symmetricDifference (passed ++ [entry]) table.flatten now) ∧
        (removed = false -> now = at_.flatten ∧ Assoc.cls classes entry.key ∉ classesOf classes now))
    flips).mono ?_
  rintro ⟨removed, dropped⟩ later ⟨changed, tended, kept, gone, absent⟩
  cases removed with
  | true =>
      simp only [if_true, ends_pure]
      exact ⟨changed, tended, kept, gone rfl⟩
  | false =>
      rcases absent rfl with ⟨same, missing⟩
      have still : Edited classes .symmetricDifference passed table.flatten changed.flatten := same ▸ edited
      have dropped_ := callbacks_of_tends tended compares lawful keyed
      simp only [Bool.false_eq_true, if_false, ends_bind]
      refine (ends_edit_insert noVal tended kept fun all =>
        room_of_edited shape shapeO split tended still all.2).mono ?_
      rintro ⟨st, isNew, after⟩ last ⟨latest, tendedMore, inserts, granted⟩
      cases st with
      | ok =>
          simp only [if_granted, ends_pure]
          exact ⟨latest, tendedMore, fun all => (granted all).2,
            still.flipIn dropped_.1 dropped_.2.1 dropped_.2.2 fresh missing (tended.val_size noVal)
              tended.steps.rep.distinct inserts⟩
      | errNoMem =>
          simp only [if_refused, ends_pure]
          exact ⟨⟨latest, tendedMore, .of_refused dropped_.1 dropped_.2.1 dropped_.2.2 split still inserts⟩,
            fun all small => by cases (granted ⟨all, small⟩).1⟩

omit noVal compares lawful keyed in
/-- Keeping the entries whose key is in `other`, or not. -/
theorem edits_retain (comparesO : Compares other classes) (lawfulO : Lawful other)
    (keyedO : Keyed other others.flatten) :
    Ends (HMap.retain self (heldBy (V := V) other) ()) heap (fun result later =>
      exists changed, Tends heap later self result.1 table changed ∧
        Edited classes .intersection others.flatten table.flatten changed.flatten) ∧
    Ends (HMap.retain self (notHeldBy (V := V) other) ()) heap (fun result later =>
      exists changed, Tends heap later self result.1 table changed ∧
        Edited classes .difference others.flatten table.flatten changed.flatten) := by
  have held : forall key, (entryFor other others key).isSome = true <->
      Assoc.cls classes key ∈ classesOf classes others.flatten :=
    fun key => entryFor_isSome_iff comparesO lawfulO shapeO keyedO
  constructor
  · refine ends_retain rep shape (asks_heldBy repO shapeO apart) ?_
    intro after changed later steps kept
    refine ⟨changed, .of_sublist steps (kept ▸ sift_sublist), ?_⟩
    rw [kept, retained_eq_filter fun key => (entryFor other others key).isSome]
    exact Edited.of_filter _ _ held rfl
  · refine ends_retain rep shape (asks_notHeldBy repO shapeO apart) ?_
    intro after changed later steps kept
    refine ⟨changed, .of_sublist steps (kept ▸ sift_sublist), ?_⟩
    rw [kept, retained_eq_filter fun key => !(entryFor other others key).isSome]
    refine Edited.of_filter (fun key => !(entryFor other others key).isSome)
      (classesOf classes others.flatten)ᶜ (fun key => ?_) ?_
    · rw [Bool.not_eq_true', Bool.eq_false_iff, Ne, held key]
      rfl
    · exact (Set.sdiff_eq _ _).symm

/-- Each operation leaves what it is named for. -/
theorem edits_attempt (comparesO : Compares other classes) (lawfulO : Lawful other)
    (keyedO : Keyed other others.flatten) (op : PairOp) :
    Ends (op.attempt (V := V) self other) heap (fun result later =>
      (exists changed, Tends heap later self result.2 table changed ∧
        Reached classes op result.1 others.flatten table.flatten changed.flatten) ∧
      (heap.Generous -> self.len + other.len ≤ 2 ^ 60 -> result.1 = .ok)) := by
  have asserts : forall {later : HMapMem K V} {after : HMap K} {changed : HMapTable K V}
      {post : Unit -> HMapMem K V -> Prop}, Tends heap later self after table changed ->
      (Ends (assertHSet after) later post <-> post () later) :=
    fun tends => ends_assertHSet tends.steps.shape (tends.val_size noVal)
  have retains := edits_retain rep shape repO shapeO apart comparesO lawfulO keyedO
  cases op with
  | union =>
      simp only [PairOp.attempt, union, ends_bind]
      refine (edits_uniteAll rep shape noVal repO shapeO apart compares lawful keyed).mono ?_
      rintro ⟨st, after⟩ later ⟨⟨changed, tends, edited⟩, granted⟩
      simp only [asserts tends, ends_pure]
      exact ⟨⟨changed, tends, edited⟩, granted⟩
  | intersection =>
      simp only [PairOp.attempt, intersection, ends_bind]
      refine retains.1.mono ?_
      rintro ⟨after, _⟩ later ⟨changed, tends, edited⟩
      simp only [asserts tends, ends_pure]
      exact ⟨⟨changed, tends, .of_done edited⟩, fun _ _ => trivial⟩
  | difference =>
      simp only [PairOp.attempt, difference, ends_bind]
      by_cases shorter : other.len < self.len
      · simp only [if_pos shorter, ends_bind]
        refine (edits_removeAll rep shape repO shapeO apart compares lawful keyed).mono ?_
        rintro after later ⟨changed, tends, edited⟩
        simp only [asserts tends, ends_pure]
        exact ⟨⟨changed, tends, .of_done edited⟩, fun _ _ => trivial⟩
      · simp only [if_neg shorter, ends_bind]
        refine retains.2.mono ?_
        rintro ⟨after, _⟩ later ⟨changed, tends, edited⟩
        simp only [asserts tends, ends_pure]
        exact ⟨⟨changed, tends, .of_done edited⟩, fun _ _ => trivial⟩
  | symmetricDifference =>
      simp only [PairOp.attempt, symmetricDifference, ends_bind]
      refine (edits_flipAll rep shape noVal repO shapeO apart compares lawful keyed comparesO lawfulO
        keyedO).mono ?_
      rintro ⟨st, after⟩ later ⟨⟨changed, tends, edited⟩, granted⟩
      simp only [asserts tends, ends_pure]
      exact ⟨⟨changed, tends, edited⟩, granted⟩

end Edit

/-! ## Comparing -/

section Compare

variable (shapeO : Shape other others) (comparesO : Compares other classes) (lawfulO : Lawful other)
  (keyedO : Keyed other others.flatten)

include shapeO comparesO lawfulO keyedO

theorem all_iff_subset : (entries.all fun entry => (entryFor other others entry.key).isSome) = true <->
    classesOf classes entries ⊆ classesOf classes others.flatten := by
  rw [List.all_eq_true]
  constructor
  · rintro all _ ⟨entry, member, rfl⟩
    exact (entryFor_isSome_iff comparesO lawfulO shapeO keyedO).mp (all entry member)
  · intro sub entry member
    exact (entryFor_isSome_iff comparesO lawfulO shapeO keyedO).mpr (sub (mem_classesOf member))

theorem any_iff_meets : (entries.any fun entry => (entryFor other others entry.key).isSome) = true <->
    (classesOf classes entries ∩ classesOf classes others.flatten).Nonempty := by
  rw [List.any_eq_true]
  constructor
  · rintro ⟨entry, member, held⟩
    exact ⟨_, mem_classesOf member, (entryFor_isSome_iff comparesO lawfulO shapeO keyedO).mp held⟩
  · rintro ⟨_, ⟨entry, member, rfl⟩, there⟩
    exact ⟨entry, member, (entryFor_isSome_iff comparesO lawfulO shapeO keyedO).mpr there⟩

end Compare
end HSet

/-! ## Objects -/

namespace HMapObjects

open Objects

/-- `tda_hset_union`, `intersection`, `difference` and `symmetric_difference`, with
the status of those that have one. -/
def attempt (op : PairOp) (self other : Nat) : Run (HMapObjects K V) Status := do
  let (a, b) ← assertPair self other
  if self = other then do
    store self (← within (onSame op a))
    return .ok
  else do
    let (st, a) ← within (op.attempt a b)
    store self a
    return st

/-- Without the status it is the call of a program. -/
theorem ends_pair_iff {s : HMapObjects K V} {op : PairOp} {self other : Nat}
    {post : Unit -> HMapObjects K V -> Prop} :
    Ends (pair op self other) s post <->
      Ends (attempt op self other) s fun _ later => post () later := by
  simp only [pair, attempt, ends_bind]
  refine exists_congr fun both => exists_congr fun t => and_congr_right fun _ => ?_
  by_cases same : self = other
  · simp only [if_pos same, ends_bind, ends_pure, ends_within, ends_store]
  · cases op <;> simp only [if_neg same, PairOp.run, PairOp.attempt, ends_bind, ends_pure,
      ends_within, ends_store]

/-- A set and itself: it stays, or it is cleared. -/
theorem edits_onSame {heap : HMapMem K V} {self : HMap K} {table : HMapTable K V} (classes : Setoid K)
    (rep : Rep heap.blocks self table) (shape : Shape self table) (noVal : self.val.size = 0) (op : PairOp) :
    Ends (onSame op self) heap (fun after later => exists changed,
      Tends heap later self after table changed ∧
        HSet.Edited classes op table.flatten table.flatten changed.flatten) := by
  have stays : op.on (HSet.classesOf classes table.flatten) (HSet.classesOf classes table.flatten) =
      HSet.classesOf classes table.flatten -> HSet.Edited classes op table.flatten table.flatten
        table.flatten :=
    fun same => ⟨same.symm, fun _ inside _ => inside, Nat.le_add_right _ _⟩
  have cleared : op.on (HSet.classesOf classes table.flatten) (HSet.classesOf classes table.flatten) = ∅ ->
      Ends (do
        let self ← HMap.clear self
        HSet.assertHSet self
        return self) heap (fun after later => exists changed,
          Tends heap later self after table changed ∧
            HSet.Edited classes op table.flatten table.flatten changed.flatten) := by
    intro nothing
    simp only [ends_bind]
    refine ends_clear rep shape ?_
    intro later steps
    have empty : (List.replicate table.length ([] : List (HMapEntry K V))).flatten = [] :=
      List.flatten_replicate_nil
    simp only [HSet.ends_assertHSet steps.shape noVal, ends_pure]
    refine ⟨_, .of_sublist steps ?_, ?_, ?_, ?_⟩
    · rw [empty]
      exact List.nil_sublist _
    · rw [empty, HSet.classesOf_nil, nothing]
    · intro entry _ here
      rw [empty, HSet.classesOf_nil] at here
      exact absurd here (Set.notMem_empty _)
    · rw [empty]
      exact Nat.zero_le _
  cases op with
  | union => exact (ends_pure _ _ _).mpr ⟨table, Tends.refl rep shape, stays (Set.union_self _)⟩
  | intersection => exact (ends_pure _ _ _).mpr ⟨table, Tends.refl rep shape, stays (Set.inter_self _)⟩
  | difference => exact cleared (Set.sdiff_self)
  | symmetricDifference => exact cleared (symmDiff_self _)

end HMapObjects

open Objects HMapObjects

variable {s : HMapObjects K V} {self other : Nat}

theorem Held.denotes {heap : HMapMem K V} {map : HMap K} {table : HMapTable K V} {classes : Setoid K}
    (held : Held heap.blocks map table) (isSet : Call.IsSet map) (compares : Compares map classes)
    (lawful : Lawful map) : HSet.Denotes classes map heap table.flatten :=
  HSet.denotes held.rep (held.shape isSet.1) (held.keyed lawful) compares lawful isSet.2

/-- What an operation on two objects comes to. -/
theorem Invariant.attempted {tables : Nat -> HMapTable K V} (invariant : Invariant s tables)
    (setSelf : Call.IsSet (s.objs self)) (setOther : Call.IsSet (s.objs other))
    (sameKey : (s.objs self).key = (s.objs other).key) {classes : Setoid K}
    (compares : Compares (s.objs self) classes) (comparesOther : Compares (s.objs other) classes)
    (lawful : Lawful (s.objs self)) (lawfulOther : Lawful (s.objs other)) (op : PairOp) :
    Ends (attempt op self other) s fun st later => exists after changed,
      later.objs = Function.update s.objs self after ∧
      Tends s.mem later.mem (s.objs self) after (tables self) changed ∧
      HSet.Reached classes op st (tables other).flatten (tables self).flatten changed.flatten ∧
      (self = other -> st = .ok) ∧
      (s.mem.Generous -> (s.objs self).len + (s.objs other).len ≤ 2 ^ 60 -> st = .ok) := by
  have heldSelf := invariant.heldBy self
  have heldOther := invariant.heldBy other
  simp only [attempt, ends_bind, invariant.ends_assertPair setSelf setOther sameKey]
  by_cases same : self = other
  · subst same
    simp only [if_true, ends_bind, ends_pure, ends_within, ends_store]
    refine (edits_onSame classes heldSelf.rep (heldSelf.shape setSelf.1) setSelf.2 op).mono ?_
    rintro after mem ⟨changed, tends, edited⟩
    exact ⟨after, changed, rfl, tends, .of_done edited, fun _ => trivial, fun _ _ => trivial⟩
  · simp only [if_neg same, ends_bind, ends_pure, ends_within, ends_store]
    refine (HSet.edits_attempt heldSelf.rep (heldSelf.shape setSelf.1) setSelf.2 heldOther.rep
      (heldOther.shape setOther.1) (invariant.apart fun equal => same equal.symm) compares lawful
      (heldSelf.keyed lawful) comparesOther lawfulOther (heldOther.keyed lawfulOther) op).mono ?_
    rintro ⟨st, after⟩ mem ⟨⟨changed, tends, edited⟩, granted⟩
    exact ⟨after, changed, rfl, tends, edited, fun equal => absurd equal same, granted⟩

/-- The state after an operation is one that a program can come to. -/
theorem Reachable.attempted (reachable : Reachable C s) {op : PairOp} {st : Status}
    {later : HMapObjects K V} (allowed : (Call.pair (V := V) (C := C) op self other).Allowed s)
    (ran : attempt op self other s = some (st, later)) : Reachable C later := by
  have ends : Ends (attempt op self other) s fun _ t => t = later := ⟨st, later, ran, rfl⟩
  have called : Ends (Call.pair (V := V) (C := C) op self other).run s fun st t =>
      st = .ok ∧ t = later := by
    simp only [Call.run, ends_bind, ends_pure, true_and]
    exact ends_pair_iff.mpr ends
  rcases called with ⟨_, _, ranCall, rfl, rfl⟩
  exact reachable.call _ allowed ranCall

/-- As sets of classes of keys, `self` and `other` are what the operations make of
them: the union, the intersection, the difference and the symmetric difference,
whenever nothing is refused, and what is kept is kept as it was stored.  Both ways
to the difference lead there.  `other` is as it was, also where it is `self`, and
the comparisons answer as the sets compare. -/
theorem Reachable.set_algebra (reachable : Reachable C s) (setSelf : Call.IsSet (s.objs self))
    (setOther : Call.IsSet (s.objs other)) (sameKey : (s.objs self).key = (s.objs other).key)
    (sameEq : (s.objs other).eq = (s.objs self).eq) (lawful : Lawful (s.objs self))
    (lawfulOther : Lawful (s.objs other)) :
    exists mine theirs : List (HMapEntry K V),
      HSet.Denotes lawful.classes (s.objs self) s.mem mine ∧
      HSet.Denotes lawful.classes (s.objs other) s.mem theirs ∧
      (forall op : PairOp, Ends (attempt op self other) s fun st later => Reachable C later ∧
        (st = .ok -> exists now, HSet.Denotes lawful.classes (later.objs self) later.mem now ∧
          HSet.classesOf lawful.classes now =
            op.on (HSet.classesOf lawful.classes mine) (HSet.classesOf lawful.classes theirs) ∧
          forall entry, entry ∈ mine ->
            Assoc.cls lawful.classes entry.key ∈ HSet.classesOf lawful.classes now -> entry ∈ now) ∧
        (self ≠ other -> later.objs other = s.objs other ∧
          HSet.Denotes lawful.classes (later.objs other) later.mem theirs) ∧
        (s.mem.Generous -> (s.objs self).len + (s.objs other).len ≤ 2 ^ 60 -> st = .ok)) ∧
      (self ≠ other ->
        (Ends (HSet.removeAll (V := V) (s.objs self) (s.objs other)) s.mem fun after later =>
          exists now, HSet.Denotes lawful.classes after later now ∧ HSet.classesOf lawful.classes now =
            HSet.classesOf lawful.classes mine \ HSet.classesOf lawful.classes theirs) ∧
        Ends (HMap.retain (s.objs self) (HSet.notHeldBy (V := V) (s.objs other)) ()) s.mem
          fun result later => exists now, HSet.Denotes lawful.classes result.1 later now ∧
            HSet.classesOf lawful.classes now =
              HSet.classesOf lawful.classes mine \ HSet.classesOf lawful.classes theirs) ∧
      (Ends (setEq self other) s fun answer later => later = s ∧ (answer = true <->
        HSet.classesOf lawful.classes mine = HSet.classesOf lawful.classes theirs)) ∧
      (Ends (isSubset self other) s fun answer later => later = s ∧ (answer = true <->
        HSet.classesOf lawful.classes mine ⊆ HSet.classesOf lawful.classes theirs)) ∧
      Ends (intersects self other) s fun answer later => later = s ∧ (answer = true <->
        (HSet.classesOf lawful.classes mine ∩ HSet.classesOf lawful.classes theirs).Nonempty) := by
  rcases reachable.invariant with ⟨tables, invariant⟩
  have heldSelf := invariant.heldBy self
  have heldOther := invariant.heldBy other
  have compares : Compares (s.objs self) lawful.classes := fun left right => Quotient.eq
  have comparesOther : Compares (s.objs other) lawful.classes := by
    unfold Compares
    rw [sameEq]
    exact compares
  have denotesSelf := heldSelf.denotes setSelf compares lawful
  have denotesOther := heldOther.denotes setOther comparesOther lawfulOther
  have shapeSelf := heldSelf.shape setSelf.1
  have shapeOther := heldOther.shape setOther.1
  have keyedSelf := heldSelf.keyed lawful
  have keyedOther := heldOther.keyed lawfulOther
  -- an object that was edited on its own denotes what its table has
  have denotes_after : forall {mem : HMapMem K V} {after : HMap K} {changed : HMapTable K V},
      Tends s.mem mem (s.objs self) after (tables self) changed ->
      HSet.Denotes lawful.classes after mem changed.flatten := by
    intro mem after changed tends
    have now_ := HSet.callbacks_of_tends tends compares lawful keyedSelf
    exact HSet.denotes tends.steps.rep tends.steps.shape now_.2.2 now_.1 now_.2.1
      (tends.val_size setSelf.2)
  have lens : (s.objs self).len = (HSet.classesOf lawful.classes (tables self).flatten).ncard :=
    denotesSelf.len
  have lensOther : (s.objs other).len = (HSet.classesOf lawful.classes (tables other).flatten).ncard :=
    denotesOther.len
  have subset : ((tables self).flatten.all fun entry =>
      (entryFor (s.objs other) (tables other) entry.key).isSome) = true <->
      HSet.classesOf lawful.classes (tables self).flatten ⊆
        HSet.classesOf lawful.classes (tables other).flatten :=
    HSet.all_iff_subset shapeOther comparesOther lawfulOther keyedOther
  refine ⟨_, _, denotesSelf, denotesOther, ?_, ?_, ?_, ?_, ?_⟩
  · intro op
    rcases invariant.attempted setSelf setOther sameKey compares comparesOther lawful lawfulOther op with
      ⟨st, later, ran, after, changed, objs, tends, reached, _, granted⟩
    refine ⟨st, later, ran, reachable.attempted ⟨setSelf, setOther, sameKey⟩ ran, ?_, ?_, granted⟩
    · intro ok
      have edited := reached.done ok
      refine ⟨changed.flatten, ?_, edited.members, edited.kept⟩
      rw [objs, Function.update_self]
      exact denotes_after tends
    · intro different
      have apart : forall addr, addr ∈ owned (s.objs other) (tables other) ->
          addr ∉ owned (s.objs self) (tables self) := invariant.apart fun equal => different equal.symm
      have unchanged : later.objs other = s.objs other := by
        rw [objs, Function.update_of_ne fun equal => different equal.symm]
      refine ⟨unchanged, ?_⟩
      rw [unchanged]
      exact HSet.denotes (tends.others_stay heldOther.rep apart) shapeOther keyedOther comparesOther
        lawfulOther setOther.2
  · intro different
    have apart : forall addr, addr ∈ owned (s.objs other) (tables other) ->
        addr ∉ owned (s.objs self) (tables self) := invariant.apart fun equal => different equal.symm
    constructor
    · refine (HSet.edits_removeAll heldSelf.rep shapeSelf heldOther.rep shapeOther apart compares lawful
        keyedSelf).mono ?_
      rintro after mem ⟨changed, tends, edited⟩
      exact ⟨changed.flatten, denotes_after tends, edited.members⟩
    · refine (HSet.edits_retain heldSelf.rep shapeSelf heldOther.rep shapeOther apart comparesOther lawfulOther
        keyedOther).2.mono ?_
      rintro ⟨after, _⟩ mem ⟨changed, tends, edited⟩
      exact ⟨changed.flatten, denotes_after tends, edited.members⟩
  · simp only [setEq, ends_bind, invariant.ends_assertPair setSelf setOther sameKey]
    by_cases same : self = other
    · subst same
      simp only [if_true, ends_pure, true_and]
    · rw [if_neg same]
      by_cases differ : (s.objs self).len ≠ (s.objs other).len
      · rw [if_pos differ, ends_pure]
        refine ⟨rfl, fun impossible => absurd impossible Bool.false_ne_true, fun equal => ?_⟩
        exact absurd (by rw [lens, lensOther, equal]) differ
      · rw [if_neg differ, ends_within]
        refine HSet.ends_keysAllIn heldSelf.rep shapeSelf heldOther.rep shapeOther ⟨rfl, ?_⟩
        rw [subset]
        constructor
        · -- as many classes, and all of them there
          intro sub
          refine Set.eq_of_subset_of_ncard_le sub ?_ HSet.classesOf_finite
          rw [← lens, ← lensOther, not_not.mp differ]
        · exact fun equal => equal.subset
  · simp only [isSubset, ends_bind, invariant.ends_assertPair setSelf setOther sameKey]
    by_cases same : self = other
    · subst same
      simp only [if_true, ends_pure, true_and]
      exact ⟨fun _ => subset_rfl, fun _ => trivial⟩
    · rw [if_neg same]
      by_cases more : (s.objs self).len > (s.objs other).len
      · rw [if_pos more, ends_pure]
        refine ⟨rfl, fun impossible => absurd impossible Bool.false_ne_true, fun sub => ?_⟩
        have fewer := Set.ncard_le_ncard sub HSet.classesOf_finite
        omega
      · rw [if_neg more, ends_within]
        exact HSet.ends_keysAllIn heldSelf.rep shapeSelf heldOther.rep shapeOther ⟨rfl, subset⟩
  · simp only [intersects, ends_bind, invariant.ends_assertPair setSelf setOther sameKey]
    by_cases shorter : (s.objs other).len < (s.objs self).len
    · rw [if_pos shorter, ends_within]
      refine HSet.ends_anyKeyIn heldOther.rep shapeOther heldSelf.rep shapeSelf ⟨rfl, ?_⟩
      rw [Set.inter_comm]
      exact HSet.any_iff_meets shapeSelf compares lawful keyedSelf
    · rw [if_neg shorter, ends_within]
      refine HSet.ends_anyKeyIn heldSelf.rep shapeSelf heldOther.rep shapeOther ⟨rfl, ?_⟩
      exact HSet.any_iff_meets shapeOther comparesOther lawfulOther keyedOther

/-! ## Two sets that have a key in common -/

/-- Two sets of numbers are made, of which the second hashes all keys alike. -/
def twoSets (answers : Nat -> Option Addr) : HMapObjects Nat Unit :=
  ((HMapObjects.blank answers).after (C := Unit)
    (Call.setInit 0 ⟨8, 8⟩ (BitVec.ofNat 64) (fun left right => left == right) (some 0))).after (C := Unit)
    (Call.setInit 1 ⟨8, 8⟩ (fun _ => 0) (fun left right => left == right) (some 0))

theorem twoSets_reachable (answers : Nat -> Option Addr) : Reachable C (twoSets answers) := by
  have builds : Maker.Builds ⟨8, 8⟩ HSet.noVal (some 0) :=
    ⟨⟨24, 8⟩, 16, 24, ⟨by decide, by decide, by decide, by decide⟩⟩
  have first := (Reachable.start (K := Nat) (V := Unit) (C := C) answers).after
    (Call.setInit 0 ⟨8, 8⟩ (BitVec.ofNat 64) (fun left right => left == right) (some 0)) ⟨rfl, builds⟩
  exact first.after (Call.setInit 1 ⟨8, 8⟩ (fun _ => 0) (fun left right => left == right) (some 0)) ⟨rfl, builds⟩

/-- The keys 1 and 2 in one of them, and 2 and 3 in the other. -/
def fourKeys : HMapObjects Nat Unit :=
  ((((twoSets some).after (C := Unit) (Call.set 0 (.insert 1))).after (C := Unit) (Call.set 0 (.insert 2))).after
    (C := Unit) (Call.set 1 (.insert 2))).after (C := Unit) (Call.set 1 (.insert 3))

theorem fourKeys_reachable : Reachable Unit fourKeys := by
  have one := (twoSets_reachable some).after (Call.set (C := Unit) 0 (.insert 1)) ⟨rfl, rfl, trivial⟩
  have two := one.after (Call.set 0 (.insert 2)) ⟨rfl, rfl, trivial⟩
  have three := two.after (Call.set 1 (.insert 2)) ⟨rfl, rfl, trivial⟩
  exact three.after (Call.set 1 (.insert 3)) ⟨rfl, rfl, trivial⟩

/-- What the symmetric difference leaves has the keys 1 and 3, and the other set is as it was. -/
theorem Reachable.set_algebra_keys : exists later, attempt .symmetricDifference 0 1 fourKeys = some (.ok, later) ∧
    (later.objs 0).len = 2 ∧ later.objs 1 = fourKeys.objs 1 ∧
    forall key, Ends (HSet.contains (V := Unit) (later.objs 0) key) later.mem fun found _ =>
      (found = true <-> key = 1 ∨ key = 3) := by
  have lawful : Lawful (fourKeys.objs 0) := lawful_beq rfl
  have lawfulOther : Lawful (fourKeys.objs 1) := lawful_beq rfl
  have setSelf : Call.IsSet (fourKeys.objs 0) := ⟨rfl, rfl⟩
  have setOther : Call.IsSet (fourKeys.objs 1) := ⟨rfl, rfl⟩
  rcases Reachable.set_algebra fourKeys_reachable setSelf setOther rfl rfl lawful lawfulOther with
    ⟨mine, theirs, denotes, denotesOther, ops, _⟩
  have ran : (attempt .symmetricDifference 0 1 fourKeys).map (fun out => (out.1, (out.2.objs 0).len)) =
      some (.ok, 2) := rfl
  rcases Option.map_eq_some_iff.mp ran with ⟨⟨st, later⟩, same, fields⟩
  rcases Prod.mk.inj fields with ⟨rfl, len⟩
  rcases (ops .symmetricDifference).of_eq same with ⟨_, done, unchanged, _⟩
  rcases done rfl with ⟨now, denotesNow, members, _⟩
  refine ⟨later, same, len, (unchanged (by decide)).1, fun key => (denotesNow.contains key).mono ?_⟩
  rintro found _ ⟨answer, _⟩
  have mineWalked : [⟨2, 2, 2, none⟩, ⟨1, 1, 1, none⟩] = mine := (denotes.walked.of_eq rfl).1
  have theirsWalked : [⟨5, 0, 3, none⟩, ⟨4, 0, 2, none⟩] = theirs := (denotesOther.walked.of_eq rfl).1
  have equal : forall other, Assoc.cls lawful.classes other = Assoc.cls lawful.classes key <-> other = key :=
    fun other => Quotient.eq.trans beq_iff_eq
  rw [answer, members, ← mineWalked, ← theirsWalked]
  simp only [PairOp.on, Set.mem_symmDiff, HSet.classesOf, Set.mem_ofPred_eq, List.mem_cons, List.not_mem_nil, or_false,
    or_and_right, exists_or, exists_eq_left, equal]
  omega

end TerseDsa
