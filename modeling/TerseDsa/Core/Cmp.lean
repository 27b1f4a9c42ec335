import TerseDsa.Foundation.Sorting

namespace TerseDsa

open Foundation

/-!
# Comparators

A `tda_Cmp` is a callback: it may look at whatever its `ctx` points to and
change it, so a comparator takes that state and hands it back.  Nothing ties
one answer to another unless it `Orders` the elems.
-/

/-- `tda_Cmp`, with the state behind its `ctx`. -/
abbrev Cmp (α C : Type) := α -> α -> C -> Int × C

variable {α β C : Type} {cmp : Cmp α C} {order : α -> α -> Int}

/-- `tda_right_goes_first`. -/
def rightGoesFirst (cmp : Cmp α C) (left right : α) (ctx : C) : Bool × C :=
  (decide ((cmp right left ctx).1 < 0), (cmp right left ctx).2)

namespace Cmp

/-- The comparator is a total preorder: its answers are those of `order`,
whose signs are antisymmetric and transitive. -/
structure Orders (cmp : Cmp α C) (order : α -> α -> Int) : Prop where
  answers : forall lhs rhs ctx, (cmp lhs rhs ctx).1 = order lhs rhs
  antisymm : forall lhs rhs, order lhs rhs < 0 <-> 0 < order rhs lhs
  trans : forall {a b c}, order a b ≤ 0 -> order b c ≤ 0 -> order a c ≤ 0

/-- Whether `lhs` may stand before `rhs`. -/
def le (order : α -> α -> Int) (lhs rhs : α) : Prop := order lhs rhs ≤ 0

instance : DecidableRel (le order) := fun lhs rhs => inferInstanceAs (Decidable (order lhs rhs ≤ 0))

theorem Orders.preorder (orders : Orders cmp order) : TotalPreorder (le order) := by
  constructor
  · intro x y
    have first := orders.antisymm x y
    have second := orders.antisymm y x
    unfold le
    omega
  · exact fun first second => orders.trans first second

theorem Orders.asks (orders : Orders cmp order) : AsksBy (rightGoesFirst cmp) (le order) := by
  intro l r ctx
  have signs := orders.antisymm r l
  unfold le
  simp only [rightGoesFirst, decide_eq_true_eq, orders.answers]
  omega

end Cmp

/-- Numbers in their order. -/
def byValue : Cmp Nat Unit := fun lhs rhs ctx => ((lhs : Int) - rhs, ctx)

theorem byValue_orders : byValue.Orders fun lhs rhs => (lhs : Int) - rhs where
  answers _ _ _ := rfl
  antisymm _ _ := by omega
  trans := by omega

end TerseDsa
