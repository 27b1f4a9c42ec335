import Mathlib.Tactic.Common
import Mathlib.Logic.Function.Basic

namespace TerseDsa
namespace Foundation

/-!
# Runs that may go wrong

A `Run S α` is a computation over states `S`.  It either ends, with a result
and a state, or goes wrong: an index out of range, a block that is not there,
a failed check, a loop that outlives its bound.  Going wrong has no result at
all, so a statement that a run *ends* says at once that nothing of the kind
can happen in it.

`Ends` is the weakest precondition for total correctness.  Its rules are
equivalences and form a simp set, so that straight-line code is executed
symbolically by rewriting.  A loop is handled by one rule: an invariant that
carries a count of the rounds still to come.
-/

/-- A computation over states `S` that may go wrong. -/
abbrev Run (S α : Type) := StateT S Option α

namespace Run

variable {S α β γ : Type}

/-- From `s` the run ends, and its result and last state satisfy `post`. -/
def Ends (run : Run S α) (s : S) (post : α -> S -> Prop) : Prop :=
  exists a t, run s = some (a, t) ∧ post a t

/-- Go on only if the condition holds. -/
def require (cond : Prop) [Decidable cond] : Run S Unit :=
  if cond then pure () else failure

/-- The value if there is one; a missing one is an error. -/
def demand : Option α -> Run S α
  | some a => pure a
  | none => failure

/-! ## Rules for straight-line code -/

@[simp] theorem ends_pure (a : α) (s : S) (post : α -> S -> Prop) :
    Ends (pure a) s post <-> post a s := by
  constructor
  · rintro ⟨b, t, same, holds⟩
    cases same
    exact holds
  · intro holds
    exact ⟨a, s, rfl, holds⟩

@[simp] theorem ends_bind (run : Run S α) (next : α -> Run S β) (s : S)
    (post : β -> S -> Prop) :
    Ends (run >>= next) s post <-> Ends run s (fun a t => Ends (next a) t post) := by
  constructor
  · rintro ⟨b, u, same, holds⟩
    change (run s).bind (fun pair => next pair.1 pair.2) = some (b, u) at same
    rcases Option.bind_eq_some_iff.mp same with ⟨⟨a, t⟩, first, second⟩
    exact ⟨a, t, first, b, u, second, holds⟩
  · rintro ⟨a, t, first, b, u, second, holds⟩
    refine ⟨b, u, ?_, holds⟩
    change (run s).bind (fun pair => next pair.1 pair.2) = some (b, u)
    rw [first]
    exact second

@[simp] theorem ends_map (run : Run S α) (f : α -> β) (s : S) (post : β -> S -> Prop) :
    Ends (f <$> run) s post <-> Ends run s (fun a t => post (f a) t) := by
  rw [map_eq_pure_bind, ends_bind]
  simp only [ends_pure]

@[simp] theorem ends_failure (s : S) (post : α -> S -> Prop) :
    Ends (failure : Run S α) s post <-> False := by
  constructor
  · rintro ⟨a, t, same, _⟩
    cases same
  · exact False.elim

@[simp] theorem ends_get (s : S) (post : S -> S -> Prop) :
    Ends get s post <-> post s s := by
  constructor
  · rintro ⟨a, t, same, holds⟩
    cases same
    exact holds
  · intro holds
    exact ⟨s, s, rfl, holds⟩

@[simp] theorem ends_set (s t : S) (post : PUnit -> S -> Prop) :
    Ends (set t) s post <-> post ⟨⟩ t := by
  constructor
  · rintro ⟨a, u, same, holds⟩
    cases same
    exact holds
  · intro holds
    exact ⟨⟨⟩, t, rfl, holds⟩

@[simp] theorem ends_modify (f : S -> S) (s : S) (post : PUnit -> S -> Prop) :
    Ends (modify f) s post <-> post ⟨⟩ (f s) := by
  constructor
  · rintro ⟨a, u, same, holds⟩
    cases same
    exact holds
  · intro holds
    exact ⟨⟨⟩, f s, rfl, holds⟩

@[simp] theorem ends_require (cond : Prop) [Decidable cond] (s : S)
    (post : Unit -> S -> Prop) :
    Ends (require cond) s post <-> cond ∧ post () s := by
  unfold require
  by_cases holds : cond
  · simp only [holds, if_true, ends_pure, true_and]
  · simp only [holds, if_false, ends_failure, false_and]

@[simp] theorem ends_demand_some (a : α) (s : S) (post : α -> S -> Prop) :
    Ends (demand (some a)) s post <-> post a s :=
  ends_pure a s post

/-- A search that something passes finds an item that passes. -/
theorem ends_demand_find {items : List α} {test : α -> Bool} {s : S} {post : α -> S -> Prop}
    (there : exists item, item ∈ items ∧ test item = true)
    (found : forall item, item ∈ items -> test item = true -> post item s) :
    Ends (demand (items.find? test)) s post := by
  rcases there with ⟨item, inside, passes⟩
  cases search : items.find? test with
  | none => exact absurd passes (List.find?_eq_none.mp search item inside)
  | some first =>
      rw [ends_demand_some]
      exact found first (List.mem_of_find?_eq_some search) (List.find?_some search)

theorem ends_ite (cond : Prop) [Decidable cond] (first second : Run S α) (s : S)
    (post : α -> S -> Prop) :
    Ends (if cond then first else second) s post <->
      (cond -> Ends first s post) ∧ (¬ cond -> Ends second s post) := by
  by_cases holds : cond <;> simp [holds]

theorem require_of {cond : Prop} [Decidable cond] (passes : cond) : (require cond : Run S Unit) = pure () :=
  if_pos passes

/-! ## A part of the state -/

/-- Run on the part of the state that `view` shows and `put` writes back. -/
def zoom {T : Type} (view : S -> T) (put : T -> S -> S) (run : Run T α) : Run S α := do
  let s ← get
  let (a, t) ← demand (run (view s))
  set (put t s)
  return a

theorem ends_zoom {T : Type} {view : S -> T} {put : T -> S -> S} {run : Run T α} {s : S}
    {post : α -> S -> Prop} :
    Ends (zoom view put run) s post <-> Ends run (view s) fun a t => post a (put t s) := by
  simp only [zoom, ends_bind, ends_get]
  constructor
  · rintro ⟨⟨a, t⟩, u, same, rest⟩
    cases result : run (view s) with
    | none =>
        rw [result] at same
        cases same
    | some pair =>
        rw [result] at same
        cases same
        simp only [ends_set, ends_pure] at rest
        exact ⟨a, t, result, rest⟩
  · rintro ⟨a, t, result, holds⟩
    rw [result, ends_demand_some]
    simpa only [ends_bind, ends_set, ends_pure] using holds

/-! ## Weakening and combining -/

theorem Ends.mono {run : Run S α} {s : S} {post wider : α -> S -> Prop}
    (ends : Ends run s post) (widen : forall a t, post a t -> wider a t) :
    Ends run s wider := by
  rcases ends with ⟨a, t, same, holds⟩
  exact ⟨a, t, same, widen a t holds⟩

/-- A run is deterministic, so two facts about its end hold of the same end. -/
theorem Ends.and {run : Run S α} {s : S} {left right : α -> S -> Prop}
    (first : Ends run s left) (second : Ends run s right) :
    Ends run s (fun a t => left a t ∧ right a t) := by
  rcases first with ⟨a, t, same, holds⟩
  rcases second with ⟨b, u, equal, also⟩
  rw [same] at equal
  cases equal
  exact ⟨a, t, same, holds, also⟩

/-- What holds at the end of a run that is known to end in `(a, t)`. -/
theorem Ends.of_eq {run : Run S α} {s t : S} {a : α} {post : α -> S -> Prop}
    (ends : Ends run s post) (same : run s = some (a, t)) : post a t := by
  rcases ends with ⟨b, u, equal, holds⟩
  rw [same] at equal
  cases equal
  exact holds

/-! ## Runs that need not end -/

/-- If the run ends from `s`, then its result and last state satisfy `post`. -/
def Allows (run : Run S α) (s : S) (post : α -> S -> Prop) : Prop :=
  forall a t, run s = some (a, t) -> post a t

theorem Ends.allows {run : Run S α} {s : S} {post : α -> S -> Prop} (ends : Ends run s post) :
    Allows run s post :=
  fun _ _ same => ends.of_eq same

theorem Allows.mono {run : Run S α} {s : S} {post wider : α -> S -> Prop}
    (allows : Allows run s post) (widen : forall a t, post a t -> wider a t) : Allows run s wider :=
  fun a t same => widen a t (allows a t same)

@[simp] theorem allows_pure (a : α) (s : S) (post : α -> S -> Prop) :
    Allows (pure a) s post <-> post a s := by
  constructor
  · exact fun allows => allows a s rfl
  · intro holds b t same
    cases same
    exact holds

@[simp] theorem allows_bind (run : Run S α) (next : α -> Run S β) (s : S) (post : β -> S -> Prop) :
    Allows (run >>= next) s post <-> Allows run s (fun a t => Allows (next a) t post) := by
  have bind_eq : (run >>= next) s = (run s).bind fun pair => next pair.1 pair.2 := rfl
  constructor
  · intro allows a t first b u second
    apply allows b u
    rw [bind_eq, first]
    exact second
  · intro allows b u same
    rw [bind_eq] at same
    rcases Option.bind_eq_some_iff.mp same with ⟨⟨a, t⟩, first, second⟩
    exact allows a t first b u second

@[simp] theorem allows_modify (f : S -> S) (s : S) (post : PUnit -> S -> Prop) :
    Allows (modify f) s post <-> post ⟨⟩ (f s) :=
  allows_pure (S := S) _ _ _

@[simp] theorem allows_require (cond : Prop) [Decidable cond] (s : S) (post : Unit -> S -> Prop) :
    Allows (require cond) s post <-> (cond -> post () s) := by
  unfold require
  by_cases holds : cond
  · simp only [holds, if_true, allows_pure, true_implies]
  · simp only [holds, if_false, false_implies, iff_true]
    exact fun a t same => nomatch same

@[simp] theorem allows_get (s : S) (post : S -> S -> Prop) : Allows get s post <-> post s s :=
  allows_pure (S := S) _ _ _

theorem allows_demand {s : S} {found : Option α} {post : α -> S -> Prop}
    (there : forall a, found = some a -> post a s) : Allows (demand found) s post := by
  cases found with
  | none => exact fun _ _ impossible => nomatch impossible
  | some a => exact (allows_pure _ _ _).mpr (there a rfl)

theorem allows_zoom {T : Type} {view : S -> T} {put : T -> S -> S} {run : Run T α} {s : S}
    {post : α -> S -> Prop} :
    Allows (zoom view put run) s post <-> Allows run (view s) fun a t => post a (put t s) := by
  constructor
  · intro allows a t same
    refine allows a (put t s) ?_
    have ends : Ends (zoom view put run) s fun b u => b = a ∧ u = put t s :=
      ends_zoom.mpr ⟨a, t, same, rfl, rfl⟩
    rcases ends with ⟨_, _, ran, rfl, rfl⟩
    exact ran
  · intro allows a u same
    have ends : Ends (zoom view put run) s fun b v => b = a ∧ v = u := ⟨a, u, same, rfl, rfl⟩
    rcases ends_zoom.mp ends with ⟨b, t, ran, rfl, rfl⟩
    exact allows b t ran

/-! ## Loops -/

/-- How a loop's body leaves a round: on to the next one, or out of the loop. -/
inductive Round (β γ : Type) where
  | again (next : β)
  | leave (result : γ)

/-- Repeat the body, from the given loop variables, until it leaves.  The
number of rounds is bounded; a loop that would go past the bound goes wrong. -/
def loop (body : β -> Run S (Round β γ)) : Nat -> β -> Run S γ
  | 0, _ => failure
  | bound + 1, b => do
      match ← body b with
      | .again next => loop body bound next
      | .leave result => pure result

/-- The rule for loops.  `inv n b s` says that at most `n` more rounds follow
the present one; a round either leaves with the postcondition or reestablishes
the invariant with fewer rounds to come. -/
theorem ends_loop {body : β -> Run S (Round β γ)} {post : γ -> S -> Prop}
    (inv : Nat -> β -> S -> Prop)
    (step : forall n b s, inv n b s -> Ends (body b) s (fun round t =>
      match round with
      | .again next => exists m, m < n ∧ inv m next t
      | .leave result => post result t)) :
    forall {n bound : Nat} {b : β} {s : S}, inv n b s -> n < bound ->
      Ends (loop body bound b) s post := by
  intro n bound
  induction bound generalizing n with
  | zero => intro b s _ enough; exact absurd enough (Nat.not_lt_zero n)
  | succ bound ih =>
      intro b s holds enough
      simp only [loop, ends_bind]
      refine (step n b s holds).mono ?_
      intro round t after
      cases round with
      | again next =>
          rcases after with ⟨m, fewer, again⟩
          exact ih again (by omega)
      | leave result => exact (ends_pure _ _ _).mpr after

/-- The rule for loops that need not end: a round either leaves with the postcondition or
keeps the invariant. -/
theorem allows_loop {body : β -> Run S (Round β γ)} {post : γ -> S -> Prop} (inv : β -> S -> Prop)
    (step : forall b s, inv b s -> Allows (body b) s fun round t =>
      match round with
      | .again next => inv next t
      | .leave result => post result t) {bound : Nat} {b : β} {s : S} (holds : inv b s) :
    Allows (loop body bound b) s post := by
  induction bound generalizing b s with
  | zero => exact fun _ _ impossible => nomatch impossible
  | succ bound ih =>
      rw [loop, allows_bind]
      refine (step b s holds).mono fun round t after => ?_
      cases round with
      | again next => exact ih after
      | leave result => exact (allows_pure _ _ _).mpr after

/-- The rounds that a loop comes to, each by its variables and the state. -/
inductive Visits (body : β -> Run S (Round β γ)) (b : β) (s : S) : β -> S -> Prop where
  | first : Visits body b s b s
  | next {c d : β} {t u : S} (before : Visits body b s c t) (again : body c t = some (.again d, u)) :
      Visits body b s d u

/-- What holds of the first round and is kept from a round to the next holds of each. -/
theorem Visits.keeps {body : β -> Run S (Round β γ)} (inv : β -> S -> Prop)
    (step : forall b s, inv b s -> Allows (body b) s fun round t =>
      match round with
      | .again coming => inv coming t
      | .leave _ => True) {b c : β} {s t : S} (visits : Visits body b s c t) (holds : inv b s) : inv c t := by
  induction visits with
  | first => exact holds
  | next before again ih => exact step _ _ ih _ _ again

/-- Run the body for every index from `idx` on, `todo` of them, threading the
loop variables. -/
def countUp (body : Nat -> β -> Run S β) : (todo idx : Nat) -> β -> Run S β
  | 0, _, b => pure b
  | todo + 1, idx, b => do
      let next ← body idx b
      countUp body todo (idx + 1) next

/-- The rule for counted loops: `inv idx b s` holds when index `idx` is next. -/
theorem ends_countUp {body : Nat -> β -> Run S β} {post : β -> S -> Prop}
    (inv : Nat -> β -> S -> Prop) {todo idx stop : Nat} (len : idx + todo = stop)
    (step : forall i b s, idx ≤ i -> i < stop -> inv i b s -> Ends (body i b) s (inv (i + 1)))
    (done : forall b s, inv stop b s -> post b s) {b : β} {s : S} (holds : inv idx b s) :
    Ends (countUp body todo idx b) s post := by
  induction todo generalizing idx b s with
  | zero =>
      have same : idx = stop := len
      exact (ends_pure _ _ _).mpr (done b s (same ▸ holds))
  | succ todo ih =>
      simp only [countUp, ends_bind]
      refine (step idx b s (Nat.le_refl idx) (by omega) holds).mono ?_
      intro next t after
      exact ih (by omega)
        (fun i c u low => step i c u (Nat.le_of_succ_le low)) after

/-! ## Facts that a run keeps -/

/-- Wherever the run starts with the fact, it still holds when the run ends. -/
def Keeps (fact : S -> Prop) (run : Run S α) : Prop :=
  forall s, fact s -> Allows run s fun _ t => fact t

namespace Keeps

variable {fact : S -> Prop} {run : Run S α}

theorem of_pure (a : α) : Keeps fact (pure a : Run S α) :=
  fun s holds => (allows_pure a s _).mpr holds

theorem of_failure : Keeps fact (failure : Run S α) := fun _ _ _ _ same => nomatch same

theorem of_require (cond : Prop) [Decidable cond] : Keeps fact (require (S := S) cond) :=
  fun s holds => (allows_require cond s _).mpr fun _ => holds

theorem of_demand (found : Option α) : Keeps fact (demand (S := S) found) := by
  cases found with
  | none => exact of_failure
  | some a => exact of_pure a

theorem bind (first : Keeps fact run) {next : α -> Run S β} (second : forall a, Keeps fact (next a)) :
    Keeps fact (run >>= next) := by
  intro s holds
  rw [allows_bind]
  exact (first s holds).mono fun a t kept => second a t kept

theorem ite {cond : Prop} [Decidable cond] {other : Run S α} (first : Keeps fact run)
    (second : Keeps fact other) : Keeps fact (if cond then run else other) := by
  split
  · exact first
  · exact second

theorem loop {body : β -> Run S (Round β γ)} (step : forall b, Keeps fact (body b)) (bound : Nat) (b : β) :
    Keeps fact (Run.loop body bound b) := by
  induction bound generalizing b with
  | zero => exact of_failure
  | succ bound ih =>
      refine (step b).bind fun round => ?_
      cases round with
      | again next => exact ih next
      | leave result => exact of_pure result

theorem countUp {body : Nat -> β -> Run S β} (step : forall i b, Keeps fact (body i b))
    (todo idx : Nat) (b : β) : Keeps fact (Run.countUp body todo idx b) := by
  induction todo generalizing idx b with
  | zero => exact of_pure b
  | succ todo ih =>
      exact (step idx b).bind fun next => ih (idx + 1) next

end Keeps

/-- A run that ends, with what it allows besides. -/
theorem Ends.and_allows {run : Run S α} {s : S} {left right : α -> S -> Prop} (ends : Ends run s left)
    (allows : Allows run s right) : Ends run s fun a t => left a t ∧ right a t := by
  rcases ends with ⟨a, t, same, holds⟩
  exact ⟨a, t, same, holds, allows a t same⟩

/-- What a run allows may be made use of where its end is reached. -/
theorem Allows.ends {run : Run S α} {s : S} {known post : α -> S -> Prop} (allows : Allows run s known)
    (ends : Ends run s fun a t => known a t -> post a t) : Ends run s post :=
  (ends.and_allows allows).mono fun _ _ both => both.1 both.2

end Run
end Foundation
end TerseDsa
