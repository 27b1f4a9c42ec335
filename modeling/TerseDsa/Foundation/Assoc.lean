import Mathlib.Data.Set.Card
import Mathlib.Data.List.Nodup
import Mathlib.Logic.Function.Basic

namespace TerseDsa
namespace Foundation

/-!
# Associations from classes of keys

A finite map whose keys are compared by an equivalence associates with a class
of keys the key that is stored for it and a value.  `Assoc.put` replaces the
value of a class that is there and keeps its stored key; a class that is
absent gets the key that was passed in.

A list of pairs *lists* an association when it has exactly the associated
pairs, one for each class.  The lemmas say how a list has to change with the
association.
-/

variable {K V C : Type} {classes : Setoid K}

/-- An association from the classes of keys to stored keys and values. -/
abbrev Assoc (classes : Setoid K) (V : Type) := Quotient classes -> Option (K × V)

namespace Assoc

/-- The class of a key. -/
abbrev cls (classes : Setoid K) (key : K) : Quotient classes := Quotient.mk classes key

/-- Nothing is associated. -/
def empty : Assoc classes V := fun _ => none

open Classical in
/-- Associate the value with the class of the key; a stored key stays. -/
noncomputable def put (assoc : Assoc classes V) (key : K) (val : V) : Assoc classes V :=
  fun found =>
    if found = cls classes key then some (((assoc found).map Prod.fst).getD key, val)
    else assoc found

open Classical in
/-- Forget the class of the key. -/
noncomputable def drop (assoc : Assoc classes V) (key : K) : Assoc classes V :=
  fun found => if found = cls classes key then none else assoc found

section Rules

variable {assoc : Assoc classes V} {key : K} {val : V} {found : Quotient classes}

theorem put_self : assoc.put key val (cls classes key) =
    some (((assoc (cls classes key)).map Prod.fst).getD key, val) := if_pos rfl

theorem put_of_ne (different : found ≠ cls classes key) :
    assoc.put key val found = assoc found := if_neg different

theorem drop_self : assoc.drop key (cls classes key) = none := if_pos rfl

theorem drop_of_ne (different : found ≠ cls classes key) :
    assoc.drop key found = assoc found := if_neg different

theorem drop_absent (absent : assoc (cls classes key) = none) : assoc.drop key = assoc := by
  funext found
  by_cases same : found = cls classes key
  · rw [same, drop_self, absent]
  · rw [drop_of_ne same]

/-- Replacing a value is dropping the class and putting back its stored key. -/
theorem put_eq_drop_put {pair : K × V} (old : assoc (cls classes key) = some pair)
    (same : cls classes pair.1 = cls classes key) :
    assoc.put key val = (assoc.drop pair.1).put pair.1 val := by
  funext found
  by_cases here : found = cls classes key
  · rw [here, put_self, old, ← same, put_self, drop_self]
    rfl
  · have there : found ≠ cls classes pair.1 := same ▸ here
    rw [put_of_ne here, put_of_ne there, drop_of_ne there]

end Rules

/-- Associate the pairs one after the other. -/
noncomputable def putAll (assoc : Assoc classes V) : List (K × V) -> Assoc classes V
  | [] => assoc
  | (key, val) :: rest => putAll (assoc.put key val) rest

/-- The number of associated classes. -/
noncomputable def size (assoc : Assoc classes V) : Nat :=
  {found : Quotient classes | assoc found ≠ none}.ncard

/-- The list has exactly the associated pairs, one for each class. -/
structure Lists (assoc : Assoc classes V) (pairs : List (K × V)) : Prop where
  mem_iff : forall found pair, assoc found = some pair <->
    pair ∈ pairs ∧ cls classes pair.1 = found
  apart : pairs.Pairwise fun left right => cls classes left.1 ≠ cls classes right.1

namespace Lists

variable {assoc : Assoc classes V} {pairs left right : List (K × V)} {pair : K × V} {key : K}
  {val : V}

theorem empty : Lists (Assoc.empty : Assoc classes V) [] :=
  ⟨fun _ _ => ⟨(fun impossible => by cases impossible),
    fun impossible => absurd impossible.1 List.not_mem_nil⟩, List.Pairwise.nil⟩

theorem perm (lists : Lists assoc pairs) {other : List (K × V)} (same : other.Perm pairs) :
    Lists assoc other := by
  refine ⟨fun found pair => ?_, ?_⟩
  · rw [lists.mem_iff, same.mem_iff]
  · exact (same.pairwise_iff (fun different => different.symm)).mpr lists.apart

theorem some_of_mem (lists : Lists assoc pairs) (member : pair ∈ pairs) :
    assoc (cls classes pair.1) = some pair :=
  (lists.mem_iff _ _).mpr ⟨member, rfl⟩

theorem none_iff (lists : Lists assoc pairs) :
    assoc (cls classes key) = none <->
      forall pair, pair ∈ pairs -> cls classes pair.1 ≠ cls classes key := by
  constructor
  · intro absent pair member same
    rw [← same, lists.some_of_mem member] at absent
    cases absent
  · intro absent
    rw [Option.eq_none_iff_forall_ne_some]
    intro pair found
    rcases (lists.mem_iff _ _).mp found with ⟨member, same⟩
    exact absent pair member same

/-- A class that is absent is listed as one pair more. -/
theorem cons (lists : Lists assoc pairs) (absent : assoc (cls classes key) = none) :
    Lists (assoc.put key val) ((key, val) :: pairs) := by
  refine ⟨fun found pair => ?_, List.pairwise_cons.mpr ⟨?_, lists.apart⟩⟩
  · rw [List.mem_cons]
    by_cases same : found = cls classes key
    · rw [same, put_self, absent, Option.map_none, Option.getD_none, Option.some.injEq]
      constructor
      · intro equal
        exact ⟨Or.inl equal.symm, by rw [← equal]⟩
      · rintro ⟨equal | member, there⟩
        · exact equal.symm
        · exact absurd there (lists.none_iff.mp absent pair member)
    · rw [put_of_ne same, lists.mem_iff]
      constructor
      · exact fun ⟨member, there⟩ => ⟨Or.inr member, there⟩
      · rintro ⟨equal | member, there⟩
        · rw [equal] at there
          exact absurd there.symm same
        · exact ⟨member, there⟩
  · intro pair member equal
    exact lists.none_iff.mp absent pair member equal.symm

/-- Leaving one pair out forgets its class. -/
theorem erase (lists : Lists assoc (left ++ pair :: right)) :
    Lists (assoc.drop pair.1) (left ++ right) := by
  have apart := List.pairwise_append.mp lists.apart
  have behind := List.pairwise_cons.mp apart.2.1
  refine ⟨fun found other => ?_, ?_⟩
  · by_cases same : found = cls classes pair.1
    · rw [same, drop_self]
      refine ⟨(fun impossible => by cases impossible), ?_⟩
      rintro ⟨member, there⟩
      rcases List.mem_append.mp member with before | after
      · exact absurd there (apart.2.2 other before pair List.mem_cons_self)
      · exact absurd there.symm (behind.1 other after)
    · rw [drop_of_ne same, lists.mem_iff, List.mem_append, List.mem_append,
        List.mem_cons]
      refine and_congr_left fun there => or_congr_right ⟨?_, Or.inr⟩
      rintro (equal | member)
      · rw [equal] at there
        exact absurd there.symm same
      · exact member
  · exact List.pairwise_append.mpr ⟨apart.1, behind.2,
      fun a inLeft b inRight => apart.2.2 a inLeft b (List.mem_cons_of_mem _ inRight)⟩

/-- Another value for a class that is there: its stored key stays. -/
theorem replace (lists : Lists assoc (left ++ pair :: right))
    (same : cls classes key = cls classes pair.1) :
    Lists (assoc.put key val) (left ++ (pair.1, val) :: right) := by
  have old : assoc (cls classes key) = some pair := by
    rw [same]
    exact lists.some_of_mem (List.mem_append_right _ List.mem_cons_self)
  rw [put_eq_drop_put old same.symm]
  exact (lists.erase.cons drop_self).perm List.perm_middle

/-- Pairs of different classes list an association. -/
theorem exists_of_apart (apart : pairs.Pairwise fun left right => cls classes left.1 ≠ cls classes right.1) :
    exists assoc : Assoc classes V, Lists assoc pairs := by
  induction pairs with
  | nil => exact ⟨_, empty⟩
  | cons pair rest ih =>
      have parts := List.pairwise_cons.mp apart
      rcases ih parts.2 with ⟨assoc, lists⟩
      have absent : assoc (cls classes pair.1) = none :=
        lists.none_iff.mpr fun other member same => parts.1 other member same.symm
      exact ⟨assoc.put pair.1 pair.2, lists.cons absent⟩

/-- Some of the associated pairs list an association of their own. -/
theorem exists_of_sublist (lists : Lists assoc pairs) {kept : List (K × V)}
    (sub : kept.Sublist pairs) : exists next : Assoc classes V, Lists next kept :=
  exists_of_apart (lists.apart.sublist sub)

theorem finite (lists : Lists assoc pairs) : {found | assoc found ≠ none}.Finite := by
  refine (List.finite_toSet (pairs.map fun pair => cls classes pair.1)).subset ?_
  intro found some_
  rcases Option.ne_none_iff_exists'.mp some_ with ⟨pair, there⟩
  exact List.mem_map.mpr ⟨pair, (lists.mem_iff _ _).mp there⟩

/-- The list is as long as the association has classes. -/
theorem length_eq (lists : Lists assoc pairs) : pairs.length = assoc.size := by
  have distinct : (pairs.map fun pair => cls classes pair.1).Nodup :=
    List.pairwise_map.mpr lists.apart
  have same : {found | assoc found ≠ none} =
      {found | found ∈ pairs.map fun pair => cls classes pair.1} := by
    ext found
    rw [Set.mem_ofPred_eq, Set.mem_ofPred_eq, List.mem_map, Option.ne_none_iff_exists']
    constructor
    · rintro ⟨pair, there⟩
      exact ⟨pair, (lists.mem_iff _ _).mp there⟩
    · rintro ⟨pair, member⟩
      exact ⟨pair, (lists.mem_iff _ _).mpr member⟩
  classical
  have finset : {found | found ∈ pairs.map fun pair => cls classes pair.1} =
      ((pairs.map fun pair => cls classes pair.1).toFinset : Set (Quotient classes)) := by
    ext found
    rw [Set.mem_ofPred_eq, Finset.mem_coe, List.mem_toFinset]
  unfold size
  rw [same, finset, Set.ncard_coe_finset, List.toFinset_card_of_nodup distinct, List.length_map]

end Lists

/-! ## Associations that agree -/

/-- The same classes are associated, with values that are related. -/
def Agree {W : Type} (related : V -> W -> Prop) (left : Assoc classes V) (right : Assoc classes W) : Prop :=
  forall found, Option.Rel (fun here there => related here.2 there.2) (left found) (right found)

theorem Agree.refl {related : V -> V -> Prop} {assoc : Assoc classes V} (self_ : forall val, related val val) :
    Agree related assoc assoc := by
  intro found
  cases assoc found with
  | none => exact Option.Rel.none
  | some pair => exact Option.Rel.some (self_ pair.2)

theorem agree_comm {W : Type} {related : V -> W -> Prop} {left : Assoc classes V} {right : Assoc classes W} :
    Agree related left right <-> Agree (fun there here => related here there) right left := by
  refine forall_congr' fun found => ?_
  cases left found with
  | none => cases right found <;> simp
  | some pair => cases right found <;> simp

/-- Associations of one size agree if one direction does: no class is left over for the other. -/
theorem Lists.agree_iff {W : Type} {related : V -> W -> Prop} {left : Assoc classes V} {right : Assoc classes W}
    {pairs : List (K × V)} {others : List (K × W)} (lists : Lists left pairs) (also : Lists right others) :
    Agree related left right <-> pairs.length = others.length ∧ forall pair, pair ∈ pairs ->
      exists other, right (cls classes pair.1) = some other ∧ related pair.2 other.2 := by
  rw [lists.length_eq, also.length_eq]
  constructor
  · intro agree
    constructor
    · have both : forall {here : Option (K × V)} {there : Option (K × W)},
          Option.Rel (fun one other => related one.2 other.2) here there -> (here ≠ none <-> there ≠ none) := by
        intro here there rel
        cases rel with
        | some _ => exact iff_of_true (Option.some_ne_none _) (Option.some_ne_none _)
        | none => exact iff_of_false (not_not.mpr rfl) (not_not.mpr rfl)
      unfold size
      congr 1
      ext found
      exact both (agree found)
    · intro pair member
      have here := agree (cls classes pair.1)
      rw [lists.some_of_mem member] at here
      cases atRight : right (cls classes pair.1) with
      | none =>
          rw [atRight] at here
          cases here
      | some other =>
          rw [atRight, Option.rel_some_some] at here
          exact ⟨other, rfl, here⟩
  · rintro ⟨sizes, forwards⟩ found
    have sub : {found | left found ≠ none} ⊆ {found | right found ≠ none} := by
      intro cls_ some_
      rcases Option.ne_none_iff_exists'.mp some_ with ⟨pair, there⟩
      rcases (lists.mem_iff _ _).mp there with ⟨member, rfl⟩
      rcases forwards pair member with ⟨other, atRight, _⟩
      exact Option.ne_none_iff_exists'.mpr ⟨other, atRight⟩
    have same := Set.eq_of_subset_of_ncard_le sub (Nat.le_of_eq sizes.symm) also.finite
    cases atLeft : left found with
    | none =>
        have notIn : found ∉ {found | right found ≠ none} := by
          rw [← same]
          exact fun some_ => some_ atLeft
        rw [not_not.mp notIn]
        exact Option.Rel.none
    | some pair =>
        rcases (lists.mem_iff _ _).mp atLeft with ⟨member, rfl⟩
        rcases forwards pair member with ⟨other, atRight, holds⟩
        rw [atRight]
        exact Option.Rel.some holds

end Assoc

end Foundation
end TerseDsa
