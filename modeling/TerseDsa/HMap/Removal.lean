import TerseDsa.HMap.Entries
import TerseDsa.Foundation.Sift

namespace TerseDsa

open Foundation Run

/-!
# Removing entries

Every removal of one entry goes through `remove_at` and leaves the other
entries in the order they were in.  `retain` edits chain after chain with a
link pointer that stays in front of the entries still to be asked about.
-/

namespace HMap

variable {K V C : Type} {heap : HMapMem K V} {self after : HMap K}
  {table changed : HMapTable K V} {entry : HMapEntry K V} {key : K} {hash : Hash} {idx : Nat}
  {chain : List (HMapEntry K V)}

/-! ## One entry -/

/-- The entries around the one that is dropped stay, in their order. -/
theorem set_drop_split {passed rest : List (HMapEntry K V)}
    (atTable : table[idx]? = some (passed ++ entry :: rest)) :
    exists left right, table.flatten = left ++ entry :: right ∧
      (table.set idx (passed ++ rest)).flatten = left ++ right := by
  refine ⟨(table.take idx).flatten ++ passed, rest ++ (table.drop (idx + 1)).flatten, ?_, ?_⟩
  · rw [flatten_split atTable]
    simp only [List.append_assoc, List.cons_append]
  · rw [flatten_set atTable]
    simp only [List.append_assoc]

theorem steps_removeAt (rep : Rep heap.blocks self table) (shape : Shape self table)
    {passed rest : List (HMapEntry K V)} (atTable : table[idx]? = some (passed ++ entry :: rest))
    {post : HMap K -> HMapMem K V -> Prop}
    (holds : forall (later : HMapMem K V),
      Steps heap.blocks later.blocks self { self with len := self.len - 1 } table
        (table.set idx (passed ++ rest)) ->
      post { self with len := self.len - 1 } later) :
    Ends (removeAt self (linkAt idx passed)) heap post :=
  ends_removeAt rep shape atTable fun later repNew evolves =>
    holds later ⟨repNew, shape.drop atTable, evolves, rfl⟩

/-- What `take` does to the entries of a map, and what it hands out. -/
inductive Takes (map : HMap K) (key : K) (before : List (HMapEntry K V)) :
    Bool × Option (K × Option V) -> List (HMapEntry K V) -> Prop where
  | taken (entry : HMapEntry K V) (left right : List (HMapEntry K V))
      (found : isEntry map key (map.hasher key) entry = true)
      (split : before = left ++ entry :: right) :
      Takes map key before (true, some (entry.key, entry.val)) (left ++ right)
  | absent (missing : forall other, other ∈ before ->
        isEntry map key (map.hasher key) other = false) :
      Takes map key before (false, none) before

theorem ends_take (rep : Rep heap.blocks self table) (shape : Shape self table)
    {post : Bool × Option (K × Option V) × HMap K -> HMapMem K V -> Prop}
    (holds : forall (out : Bool × Option (K × Option V)) (after : HMap K)
      (changed : HMapTable K V) (later : HMapMem K V),
      Steps heap.blocks later.blocks self after table changed ->
      Takes self key table.flatten out changed.flatten -> post (out.1, out.2, after) later) :
    Ends (take self key) heap post := by
  simp only [take, ends_bind, ends_assertHMap (shape.asserts rep)]
  by_cases empty : table = []
  · have counted : self.bucketCount = 0 := by
      rw [shape.count, empty]
      rfl
    rw [if_pos counted, ends_pure]
    refine holds (false, none) self table heap (Steps.refl rep shape) (.absent ?_)
    rw [empty]
    intro other member
    exact absurd member List.not_mem_nil
  · have counted : self.bucketCount ≠ 0 := by
      rw [shape.count]
      exact fun zero => empty (List.eq_nil_of_length_eq_zero zero)
    simp only [if_neg counted, ends_bind]
    refine ends_findLink rep shape empty ?_
    intro passed rest split missed stop
    have atTable := shape.chainOf_eq empty (self.hasher key)
    rw [split] at atTable
    simp only [ends_readLink rep atTable]
    cases rest with
    | nil =>
        have missing : lookup self table key (self.hasher key) = none := by
          unfold lookup
          rw [split, List.append_nil, List.find?_eq_none]
          intro other member
          rw [missed other member]
          exact Bool.false_ne_true
        simp only [addrs_nil, List.head?_nil, ends_pure]
        exact holds (false, none) self table heap (Steps.refl rep shape)
          (.absent (shape.lookup_none missing))
    | cons entry rest =>
        have member := mem_flatten_of_bucket atTable
          (List.mem_append_right passed (List.mem_cons_self (a := entry) (l := rest)))
        rcases set_drop_split atTable with ⟨left, right, whole, fewer⟩
        simp only [addrs_cons, List.head?_cons, ends_bind,
          ends_readNode (rep.holds entry member), nodeOf]
        refine steps_removeAt rep shape atTable ?_
        intro later steps
        simp only [ends_assertHMap steps.asserts, ends_pure]
        refine holds (true, some (entry.key, entry.val)) _ _ later steps ?_
        rw [fewer]
        exact .taken entry left right (stop entry rfl) whole

theorem ends_remove (rep : Rep heap.blocks self table) (shape : Shape self table)
    {post : Bool × HMap K -> HMapMem K V -> Prop}
    (holds : forall (out : Bool × Option (K × Option V)) (after : HMap K)
      (changed : HMapTable K V) (later : HMapMem K V),
      Steps heap.blocks later.blocks self after table changed ->
      Takes self key table.flatten out changed.flatten -> post (out.1, after) later) :
    Ends (remove (V := V) self key) heap post := by
  simp only [remove, ends_bind, ends_assertHMap (shape.asserts rep)]
  refine ends_take rep shape ?_
  intro out after changed later steps takes
  simp only [ends_assertHMap steps.asserts, ends_pure]
  exact holds out after changed later steps takes

/-- The walk of `remove_node` stops at the link that points at the node. -/
theorem ends_removeNode_walk (rep : Rep heap.blocks self table)
    {passed rest : List (HMapEntry K V)} (atTable : table[idx]? = some (passed ++ entry :: rest))
    {bound : Nat} (enough : passed.length < bound) {post : HMapLink -> HMapMem K V -> Prop}
    (holds : post (linkAt idx passed) heap) :
    Ends (loop (fun link => do
      match ← readLink (V := V) self link with
      | none => return .leave link
      | some cur => if cur = entry.addr then return .leave link else return .again (.next cur))
      bound (.bucket idx)) heap post := by
  have distinct : (addrs (passed ++ entry :: rest)).Nodup := by
    rcases rep.bucket atTable with ⟨_, _, _, _, _, _, _, walk⟩
    exact walk.nodup
  refine ends_loop (fun n link h => h = heap ∧ exists front back, back.length = n ∧
    passed = front ++ back ∧ link = linkAt idx front) ?_ (n := passed.length)
    ⟨rfl, [], passed, rfl, rfl, rfl⟩ enough
  rintro n link h ⟨rfl, front, back, count, split, rfl⟩
  subst passed
  rw [List.append_assoc] at atTable
  simp only [ends_bind, ends_readLink rep atTable]
  cases back with
  | nil =>
      rw [List.append_nil] at holds
      simpa only [List.nil_append, addrs_cons, List.head?_cons, if_true, ends_pure] using holds
  | cons next back =>
      have different : next.addr ≠ entry.addr := by
        rw [List.append_assoc, addrs_append, List.cons_append, addrs_cons, addrs_append,
          addrs_cons] at distinct
        intro same
        refine (List.nodup_cons.mp (List.nodup_append.mp distinct).2.1).1 ?_
        rw [same]
        exact List.mem_append_right _ List.mem_cons_self
      simp only [List.cons_append, addrs_cons, List.head?_cons, if_neg different, ends_pure,
        true_and]
      exact ⟨back.length, by rw [← count]; exact Nat.lt_succ_self _, front ++ [next], back, rfl,
        by simp, (linkAt_snoc front next).symm⟩

/-- `remove_node` takes out the entry of the node it is given. -/
theorem ends_removeNode (rep : Rep heap.blocks self table) (shape : Shape self table)
    (member : entry ∈ table.flatten) {post : HMap K -> HMapMem K V -> Prop}
    (holds : forall (after : HMap K) (changed : HMapTable K V) (later : HMapMem K V)
      (left right : List (HMapEntry K V)),
      Steps heap.blocks later.blocks self after table changed ->
      table.flatten = left ++ entry :: right -> changed.flatten = left ++ right ->
      post after later) :
    Ends (removeNode (V := V) self entry.addr) heap post := by
  rcases mem_flatten_iff.mp member with ⟨at_, chain, atTable, inside⟩
  have nonempty : table ≠ [] := by
    rintro rfl
    cases atTable
  have idxEq := shape.placed at_ chain atTable entry inside
  have fits := shape.chain_le atTable
  rcases List.append_of_mem inside with ⟨passed, rest, same⟩
  subst chain
  rw [List.length_append, List.length_cons] at fits
  rcases set_drop_split atTable with ⟨left, right, whole, fewer⟩
  simp only [removeNode, ends_bind, ends_assertHMap (shape.asserts rep), ends_require,
    show 0 < self.len by omega, true_and, ends_readNode (rep.holds entry member), nodeOf,
    ends_bucketOf shape nonempty, idxEq]
  refine ends_removeNode_walk rep atTable (by omega) ?_
  simp only [ends_readLink rep atTable, addrs_cons, List.head?_cons, true_and]
  refine steps_removeAt rep shape atTable ?_
  intro later steps
  simp only [ends_assertHMap steps.asserts, ends_pure]
  exact holds _ _ later left right steps whole fewer

/-! ## The entries a predicate keeps -/

/-- What a predicate answers for an entry, in a state of its `ctx`. -/
abbrev Answer (K V C : Type) := K -> Option V -> C -> Bool × C

/-- The entries kept when each is asked about once, in order, and the state
that is left. -/
def retained (answer : Answer K V C) : C -> List (HMapEntry K V) -> List (HMapEntry K V) × C :=
  sift fun entry => answer entry.key entry.val

/-- The predicate answers as told whenever the memory outside `mine` is as it
is now, and changes nothing. -/
def Asks (pred : EntryPred K V C) (answer : Answer K V C) (mine : List Addr)
    (heap : HMapMem K V) : Prop :=
  forall (key : K) (val : Option V) (ctx : C) (later : HMapMem K V),
    (forall addr, addr ∉ mine -> later.blocks addr = heap.blocks addr) ->
    Ends (pred key val ctx) later
      (fun out last => out = answer key val ctx ∧ last = later)

/-- In the midst of `retain` nothing but entries of the map has been given up. -/
structure Pruned (blocks later : Blocks AlTag (HMapCell K V)) (map now : HMap K)
    (table changed : HMapTable K V) : Prop where
  steps : Steps blocks later map now table changed
  buckets : now.buckets = map.buckets
  sub : forall entry, entry ∈ changed.flatten -> entry ∈ table.flatten

theorem Pruned.agrees {blocks later : Blocks AlTag (HMapCell K V)}
    (pruned : Pruned blocks later self after table changed) {addr : Addr}
    (outside : addr ∉ owned self table) : later addr = blocks addr := by
  refine pruned.steps.evolves.outside addr outside ?_
  intro inside
  refine outside ?_
  rcases mem_owned.mp inside with atArray | member
  · exact mem_owned.mpr (Or.inl (pruned.buckets ▸ atArray))
  · rcases mem_addrs.mp member with ⟨other, there, rfl⟩
    exact mem_owned.mpr (Or.inr (addr_mem_addrs (pruned.sub other there)))

/-- The walk of `retain` down one chain, with the entries `kept` behind the
link and `rest` still to be asked about. -/
theorem ends_retain_chain {origin : HMapMem K V} {pred : EntryPred K V C} {answer : Answer K V C}
    (asks : Asks pred answer (owned self table) origin) {rest : List (HMapEntry K V)} :
    forall (heap : HMapMem K V) (now : HMap K) (at_ : HMapTable K V)
      (kept : List (HMapEntry K V)) (ctx : C) (bound : Nat),
      Pruned origin.blocks heap.blocks self now table at_ ->
      at_[idx]? = some (kept ++ rest) -> rest.length < bound ->
      Ends (loop (fun (vars : HMap K × C × HMapLink) => do
        match ← readLink vars.1 vars.2.2 with
        | none => return .leave (vars.1, vars.2.1)
        | some addr =>
            let node ← readNode addr
            let (keep, ctx) ← pred node.key node.val vars.2.1
            if keep then
              return .again (vars.1, ctx, .next addr)
            let self ← removeAt vars.1 vars.2.2
            return .again (self, ctx, vars.2.2)) bound (now, ctx, linkAt idx kept)) heap
        (fun out later => out.2 = (retained answer ctx rest).2 ∧
          Pruned origin.blocks later.blocks self out.1 table
            (at_.set idx (kept ++ (retained answer ctx rest).1))) := by
  induction rest with
  | nil =>
      intro heap now at_ kept ctx bound pruned atTable enough
      obtain ⟨bound, rfl⟩ : exists less, bound = less + 1 := Nat.exists_eq_add_one.mpr enough
      simp only [loop, ends_bind, ends_readLink pruned.steps.rep atTable, addrs_nil,
        List.head?_nil, ends_pure]
      refine ⟨rfl, ?_⟩
      have same : at_.set idx (kept ++ []) = at_ := by
        rcases List.getElem?_eq_some_iff.mp atTable with ⟨inside, value⟩
        rw [← value, List.set_getElem_self]
      simp only [retained, sift]
      rw [same]
      exact pruned
  | cons entry rest ih =>
      intro heap now at_ kept ctx bound pruned atTable enough
      obtain ⟨bound, rfl⟩ : exists less, bound = less + 1 :=
        Nat.exists_eq_add_one.mpr (Nat.lt_of_le_of_lt (Nat.zero_le _) enough)
      have rep := pruned.steps.rep
      have member := mem_flatten_of_bucket atTable
        (List.mem_append_right kept (List.mem_cons_self (a := entry) (l := rest)))
      simp only [loop, ends_bind, ends_readLink rep atTable, addrs_cons, List.head?_cons,
        ends_readNode (rep.holds entry member), nodeOf]
      refine (asks entry.key entry.val ctx heap fun addr => pruned.agrees).mono ?_
      rintro _ _ ⟨rfl, rfl⟩
      rcases answered : answer entry.key entry.val ctx with ⟨keep, left⟩
      cases keep with
      | true =>
          simp only [if_true, ends_pure]
          have further := ih _ now at_ (kept ++ [entry]) left bound
            pruned (by rw [List.append_assoc]; exact atTable) (Nat.lt_of_succ_lt_succ enough)
          rw [linkAt_snoc] at further
          refine further.mono ?_
          intro out later
          simp only [retained, sift, answered, if_true, List.append_assoc, List.singleton_append]
          exact id
      | false =>
          simp only [Bool.false_eq_true, if_false, ends_bind]
          refine steps_removeAt rep pruned.steps.shape atTable ?_
          intro later steps
          have inside := (List.getElem?_eq_some_iff.mp atTable).1
          have further := ih later { now with len := now.len - 1 }
            (at_.set idx (kept ++ rest)) kept left bound
            ⟨pruned.steps.trans steps, pruned.buckets, ?_⟩
            (List.getElem?_set_self inside) (Nat.lt_of_succ_lt_succ enough)
          · simp only [ends_pure]
            refine further.mono ?_
            intro out last
            simp only [retained, sift, answered, Bool.false_eq_true, if_false, List.set_set]
            exact id
          · intro other there
            refine pruned.sub other ?_
            exact (set_drop_perm atTable).mem_iff.mpr (List.mem_cons_of_mem _ there)

/-- `retain` asks about every entry once, in the order of the table, and keeps
those it is told to keep. -/
theorem ends_retain (rep : Rep heap.blocks self table) (shape : Shape self table)
    {pred : EntryPred K V C} {answer : Answer K V C} {ctx : C}
    (asks : Asks pred answer (owned self table) heap)
    {post : HMap K × C -> HMapMem K V -> Prop}
    (holds : forall (after : HMap K) (changed : HMapTable K V) (later : HMapMem K V),
      Steps heap.blocks later.blocks self after table changed ->
      changed.flatten = (retained answer ctx table.flatten).1 ->
      post (after, (retained answer ctx table.flatten).2) later) :
    Ends (retain self pred ctx) heap post := by
  simp only [retain, ends_bind, ends_assertHMap (shape.asserts rep)]
  refine ends_countUp (fun idx vars h => exists at_ : HMapTable K V,
      Pruned heap.blocks h.blocks self vars.1 table at_ ∧ at_.length = table.length ∧
      retained answer ctx (table.take idx).flatten = ((at_.take idx).flatten, vars.2) ∧
      at_.drop idx = table.drop idx)
    (show 0 + self.bucketCount = table.length by rw [shape.count]; omega) ?_ ?_
    ⟨table, ⟨Steps.refl rep shape, rfl, fun _ => id⟩, rfl, by simp [retained, sift], rfl⟩
  · rintro idx ⟨now, left⟩ h _ inside ⟨at_, pruned, length, done, todo⟩
    have atTable : at_[idx]? = some ([] ++ table[idx]) := by
      have same := congrArg (fun list => list[0]?) todo
      simp only [List.getElem?_drop, Nat.add_zero] at same
      rw [same, List.getElem?_eq_getElem inside, List.nil_append]
    refine (ends_retain_chain asks _ _ _ [] _ _ pruned atTable
      (Nat.lt_succ_of_le (pruned.steps.shape.chain_le atTable))).mono ?_
    rintro ⟨last, final⟩ later ⟨rfl, prunedNext⟩
    have upTo : (table.take (idx + 1)).flatten = (table.take idx).flatten ++ table[idx] := by
      rw [List.take_succ_eq_append_getElem inside, List.flatten_append, List.flatten_singleton]
    refine ⟨_, prunedNext, by rw [List.length_set]; exact length, ?_, ?_⟩
    · have within : idx < at_.length := length ▸ inside
      rw [retained] at done ⊢
      rw [upTo, sift_append, done, List.take_succ_eq_append_getElem
          (by rw [List.length_set]; exact within), List.getElem_set_self,
        List.take_set_of_le (Nat.le_refl idx), List.flatten_append, List.flatten_singleton,
        List.nil_append]
    · rw [List.drop_set_of_lt (by omega), ← List.drop_drop, todo, List.drop_drop]
  · rintro ⟨now, left⟩ h ⟨at_, pruned, length, done, _⟩
    rw [List.take_length, List.take_of_length_le (Nat.le_of_eq length)] at done
    simp only [ends_assertHMap pruned.steps.asserts, ends_pure]
    have result := holds now at_ h pruned.steps (by rw [done])
    rw [done] at result
    exact result

end HMap
end TerseDsa
