import TerseDsa.HMap.Keys
import TerseDsa.HSet.Model

namespace TerseDsa

open Foundation Run

/-!
# Comparing maps and sets

The comparisons walk one map and look each key up in the other.  They change
nothing, and their answers are those of pure functions of the two tables.
-/

namespace HMap

variable {K V C : Type} {heap : HMapMem K V} {a b : HMap K} {left right : HMapTable K V}
  {idx : Nat} {chain : List (HMapEntry K V)}

/-- Whether the map over the table has the entry's key, with a value that
compares equal. -/
def hasEqual (map : HMap K) (table : HMapTable K V) (valEq : Option V -> Option V -> Bool)
    (entry : HMapEntry K V) : Bool :=
  match entryFor map table entry.key with
  | none => false
  | some other => valEq entry.val other.val

theorem hasEqual_none {valEq : Option V -> Option V -> Bool} {entry : HMapEntry K V}
    (missing : entryFor b right entry.key = none) : hasEqual b right valEq entry = false := by
  simp only [hasEqual, missing]

theorem hasEqual_some {valEq : Option V -> Option V -> Bool} {entry other : HMapEntry K V}
    (found : entryFor b right entry.key = some other) :
    hasEqual b right valEq entry = valEq entry.val other.val := by
  simp only [hasEqual, found]

section Eq

variable {valEq : Option V -> Option V -> Bool} (repA : Rep heap.blocks a left)
  (shapeA : Shape a left) (repB : Rep heap.blocks b right) (shapeB : Shape b right)

include repA shapeA repB shapeB

theorem ends_eqImpl_chain (atTable : left[idx]? = some chain)
    {post : Bool -> HMapMem K V -> Prop} (holds : post (chain.all (hasEqual b right valEq)) heap) :
    Ends (loop (fun ptr => do
        match ptr with
        | none => return .leave true
        | some addr =>
            let node ← readNode addr
            match ← findNode (V := V) b node.key (b.hasher node.key) with
            | none => return .leave false
            | some found =>
                let other ← readNode (K := K) found
                if valEq node.val other.val then
                  return .again node.next
                return .leave false)
        (a.len + 1) (addrs chain).head?) heap post := by
  refine ends_loop (fun n ptr h => h = heap ∧ exists passed rest, rest.length = n ∧
    chain = passed ++ rest ∧ ptr = (addrs rest).head? ∧
    passed.all (hasEqual b right valEq) = true) ?_ (n := chain.length)
    ⟨rfl, [], chain, rfl, rfl, rfl, rfl⟩ (Nat.lt_succ_of_le (shapeA.chain_le atTable))
  rintro n ptr h ⟨rfl, passed, rest, count, split, rfl, equal⟩
  subst chain
  rw [List.all_append, equal, Bool.true_and] at holds
  cases rest with
  | nil => exact (ends_pure _ _ _).mpr holds
  | cons entry rest =>
      have member := mem_flatten_of_bucket atTable
        (List.mem_append_right passed (List.mem_cons_self (a := entry) (l := rest)))
      simp only [addrs_cons, List.head?_cons, ends_bind, ends_readNode (repA.holds entry member),
        nodeOf]
      refine ends_findNode repB shapeB ?_
      rw [List.all_cons] at holds
      cases found : lookup b right entry.key (b.hasher entry.key) with
      | none =>
          rw [hasEqual_none found, Bool.false_and] at holds
          simpa only [Option.map_none, ends_pure] using holds
      | some other =>
          have here : hasEqual b right valEq entry = valEq entry.val other.val :=
            hasEqual_some found
          simp only [Option.map_some, ends_bind,
            ends_readNode (repB.holds other (lookup_some found).1), nodeOf]
          by_cases same : valEq entry.val other.val = true
          · rw [same] at here
            simp only [same, if_true, ends_pure, true_and]
            refine ⟨rest.length, by rw [← count]; exact Nat.lt_succ_self _, passed ++ [entry], rest,
              rfl, by simp, repA.next_eq atTable, ?_⟩
            rw [List.all_append, equal, List.all_cons, here]
            rfl
          · have different : valEq entry.val other.val = false := Bool.eq_false_iff.mpr same
            rw [different] at here
            rw [here, Bool.false_and] at holds
            simpa only [different, Bool.false_eq_true, if_false, ends_pure] using holds

/-- `eq_impl` answers whether the lengths agree and every entry of the one map
has an equal in the other. -/
theorem ends_eqImpl {post : Bool -> HMapMem K V -> Prop}
    (holds : post (a.len == b.len && left.flatten.all (hasEqual b right valEq)) heap) :
    Ends (eqImpl a b valEq) heap post := by
  unfold eqImpl
  by_cases sameLen : a.len = b.len
  · rw [if_neg (not_not.mpr sameLen)]
    rw [sameLen, beq_self_eq_true, Bool.true_and] at holds
    refine ends_loop (fun n i h => h = heap ∧ n = left.length - i ∧ i ≤ left.length ∧
      (left.take i).flatten.all (hasEqual b right valEq) = true) ?_ (n := left.length)
      ⟨rfl, rfl, Nat.zero_le _, rfl⟩ (by rw [shapeA.count]; omega)
    rintro n i h ⟨rfl, rfl, upTo, equal⟩
    by_cases inside : i < left.length
    · have atTable := List.getElem?_eq_getElem inside
      rcases repA.bucket atTable with ⟨array, slots, head, buckets, at_array, _, atSlot, walk⟩
      have start := walk.start_eq
      rw [Option.or_none] at start
      subst start
      simp only [if_pos (shapeA.count ▸ inside), ends_bind, buckets,
        ends_readSlot at_array atSlot]
      refine ends_eqImpl_chain repA shapeA repB shapeB atTable ?_
      rw [flatten_split atTable, List.all_append, List.all_append, equal, Bool.true_and] at holds
      by_cases same : left[i].all (hasEqual b right valEq) = true
      · simp only [same, if_true, ends_pure, true_and]
        refine ⟨_, by omega, rfl, by omega, ?_⟩
        rw [List.take_succ_eq_append_getElem inside, List.flatten_append, List.flatten_singleton,
          List.all_append, equal, same]
        rfl
      · have different := Bool.eq_false_iff.mpr same
        rw [different, Bool.false_and] at holds
        simpa only [different, Bool.false_eq_true, if_false, ends_pure] using holds
    · rw [if_neg (shapeA.count ▸ inside), ends_pure]
      rw [List.take_of_length_le (by omega)] at equal
      rw [equal] at holds
      exact holds
  · rw [if_pos sameLen, ends_pure]
    rw [beq_eq_false_iff_ne.mpr sameLen, Bool.false_and] at holds
    exact holds

end Eq
end HMap

namespace HSet

open HMap

variable {K V : Type} {heap : HMapMem K V} {a b : HMap K} {left right : HMapTable K V}

section Walk

variable (repA : Rep heap.blocks a left) (shapeA : Shape a left) (repB : Rep heap.blocks b right)
  (shapeB : Shape b right)

include repA shapeA repB shapeB

theorem ends_keysAllIn {post : Bool -> HMapMem K V -> Prop}
    (holds : post (left.flatten.all fun entry => (entryFor b right entry.key).isSome) heap) :
    Ends (keysAllIn (V := V) a b) heap post := by
  refine ends_forEach shapeA (fun rest _ h => h = heap ∧ post (rest.all fun entry =>
    (entryFor b right entry.key).isSome) heap) (fun _ _ _ inv => inv.1 ▸ repA) ?_
    (fun _ _ inv => inv.1 ▸ inv.2) ⟨rfl, holds⟩
  rintro entry rest _ h ⟨before, split⟩ ⟨rfl, holds⟩
  have member : entry ∈ left.flatten := by
    rw [split]
    exact List.mem_append_right _ List.mem_cons_self
  simp only [ends_bind, ends_nodeKey repA shapeA member]
  refine ends_contains repB shapeB ?_
  rw [List.all_cons] at holds
  cases held : (entryFor b right entry.key).isSome with
  | true =>
      rw [held, Bool.true_and] at holds
      simpa only [if_true, ends_pure, true_and] using holds
  | false =>
      rw [held, Bool.false_and] at holds
      simpa only [Bool.false_eq_true, if_false, ends_pure] using holds

theorem ends_anyKeyIn {post : Bool -> HMapMem K V -> Prop}
    (holds : post (left.flatten.any fun entry => (entryFor b right entry.key).isSome) heap) :
    Ends (anyKeyIn (V := V) a b) heap post := by
  refine ends_forEach shapeA (fun rest _ h => h = heap ∧ post (rest.any fun entry =>
    (entryFor b right entry.key).isSome) heap) (fun _ _ _ inv => inv.1 ▸ repA) ?_
    (fun _ _ inv => inv.1 ▸ inv.2) ⟨rfl, holds⟩
  rintro entry rest _ h ⟨before, split⟩ ⟨rfl, holds⟩
  have member : entry ∈ left.flatten := by
    rw [split]
    exact List.mem_append_right _ List.mem_cons_self
  simp only [ends_bind, ends_nodeKey repA shapeA member]
  refine ends_contains repB shapeB ?_
  rw [List.any_cons] at holds
  cases held : (entryFor b right entry.key).isSome with
  | true =>
      rw [held, Bool.true_or] at holds
      simpa only [if_true, ends_pure] using holds
  | false =>
      rw [held, Bool.false_or] at holds
      simpa only [Bool.false_eq_true, if_false, ends_pure, true_and] using holds

end Walk
end HSet
end TerseDsa
