import TerseDsa.Foundation.Run

namespace TerseDsa
namespace Foundation
namespace Run

/-!
# Two runs that match

A run over states `S` and one over states `T` match, under a relation between
the states and one between the results, if from related states both go wrong, or
both end in related states with related results.
-/

variable {S T α β γ δ : Type} {rel : S -> T -> Prop} {same : α -> β -> Prop}

/-- How two runs may end. -/
def Matched (rel : S -> T -> Prop) (same : α -> β -> Prop) : Option (α × S) -> Option (β × T) -> Prop
  | none, none => True
  | some (a, s), some (b, t) => same a b ∧ rel s t
  | _, _ => False

/-- From related states the runs end alike. -/
def Matches (rel : S -> T -> Prop) (same : α -> β -> Prop) (run : Run S α) (other : Run T β) : Prop :=
  forall s t, rel s t -> Matched rel same (run s) (other t)

namespace Matches

variable {run : Run S α} {other : Run T β} {s : S} {t : T}

theorem of_pure {a : α} {b : β} (results : same a b) : Matches rel same (pure a) (pure b) :=
  fun _ _ related => ⟨results, related⟩

theorem of_failure : Matches rel same failure failure := fun _ _ _ => trivial

theorem of_require (cond : Prop) [Decidable cond] : Matches rel Eq (require cond) (require cond) := by
  unfold require
  split
  · exact of_pure rfl
  · exact of_failure

theorem of_demand (found : Option α) : Matches rel Eq (demand found) (demand found) := by
  cases found with
  | none => exact of_failure
  | some a => exact of_pure rfl

theorem of_get : Matches rel rel get get := fun _ _ related => ⟨related, related⟩

theorem of_modify {f : S -> S} {g : T -> T} (step : forall s t, rel s t -> rel (f s) (g t)) :
    Matches rel Eq (modify f) (modify g) :=
  fun s t related => ⟨rfl, step s t related⟩

theorem bind {middle : α -> β -> Prop} {result : γ -> δ -> Prop} {next : α -> Run S γ} {otherNext : β -> Run T δ}
    (first : Matches rel middle run other)
    (second : forall a b, middle a b -> Matches rel result (next a) (otherNext b)) :
    Matches rel result (run >>= next) (other >>= otherNext) := by
  intro s t related
  have ends := first s t related
  change Matched rel result ((run s).bind fun pair => next pair.1 pair.2)
    ((other t).bind fun pair => otherNext pair.1 pair.2)
  cases left : run s with
  | none =>
      cases right : other t with
      | none => trivial
      | some pair =>
          rw [left, right] at ends
          exact ends.elim
  | some pair =>
      cases right : other t with
      | none =>
          rw [left, right] at ends
          exact ends.elim
      | some pair' =>
          rw [left, right] at ends
          exact second _ _ ends.1 _ _ ends.2

theorem bind_eq {other : Run T α} {result : γ -> δ -> Prop} {next : α -> Run S γ} {otherNext : α -> Run T δ}
    (first : Matches rel Eq run other) (second : forall a, Matches rel result (next a) (otherNext a)) :
    Matches rel result (run >>= next) (other >>= otherNext) :=
  first.bind fun a _ equal => equal ▸ second a

theorem ite {cond : Prop} [Decidable cond] {run' : Run S α} {other' : Run T β} (first : Matches rel same run other)
    (second : Matches rel same run' other') :
    Matches rel same (if cond then run else run') (if cond then other else other') := by
  split
  · exact first
  · exact second

theorem zoom {U V : Type} {inner : U -> V -> Prop} {view : S -> U} {put : U -> S -> S} {view' : T -> V}
    {put' : V -> T -> T} {part : Run U α} {part' : Run V β} (runs : Matches inner same part part')
    (views : forall s t, rel s t -> inner (view s) (view' t))
    (puts : forall u v s t, inner u v -> rel s t -> rel (put u s) (put' v t)) :
    Matches rel same (Run.zoom view put part) (Run.zoom view' put' part') := by
  intro s t related
  have ends := runs _ _ (views s t related)
  change Matched rel same ((demand (part (view s)) >>= fun pair => set (put pair.2 s) >>= fun _ => pure pair.1) s)
    ((demand (part' (view' t)) >>= fun pair => set (put' pair.2 t) >>= fun _ => pure pair.1) t)
  cases left : part (view s) with
  | none =>
      cases right : part' (view' t) with
      | none => trivial
      | some pair =>
          rw [left, right] at ends
          exact ends.elim
  | some pair =>
      cases right : part' (view' t) with
      | none =>
          rw [left, right] at ends
          exact ends.elim
      | some pair' =>
          rw [left, right] at ends
          exact ⟨ends.1, puts _ _ _ _ ends.2 related⟩

theorem refl (run : Run S α) : Matches Eq Eq run run := by
  rintro s _ rfl
  cases run s with
  | none => trivial
  | some pair => exact ⟨rfl, rfl⟩

theorem zoom_left {U : Type} {inner : U -> T -> Prop} {view : S -> U} {put : U -> S -> S} {part : Run U α}
    (runs : Matches inner same part other) (views : forall s t, rel s t -> inner (view s) t)
    (puts : forall u s t t', inner u t' -> rel s t -> rel (put u s) t') :
    Matches rel same (Run.zoom view put part) other := by
  intro s t related
  have ends := runs _ _ (views s t related)
  change Matched rel same ((demand (part (view s)) >>= fun pair => set (put pair.2 s) >>= fun _ => pure pair.1) s) _
  cases left : part (view s) with
  | none =>
      cases right : other t with
      | none => trivial
      | some pair =>
          rw [left, right] at ends
          exact ends.elim
  | some pair =>
      cases right : other t with
      | none =>
          rw [left, right] at ends
          exact ends.elim
      | some pair' =>
          rw [left, right] at ends
          exact ⟨ends.1, puts _ _ _ _ ends.2 related⟩

/-- How two rounds of loops end alike. -/
def rounds (vars : γ -> δ -> Prop) (same : α -> β -> Prop) : Round γ α -> Round δ β -> Prop
  | .again next, .again next' => vars next next'
  | .leave result, .leave result' => same result result'
  | _, _ => False

theorem loop {vars : γ -> δ -> Prop} {body : γ -> Run S (Round γ α)} {body' : δ -> Run T (Round δ β)}
    (bodies : forall c d, vars c d -> Matches rel (rounds vars same) (body c) (body' d)) (bound : Nat) {c : γ}
    {d : δ} (start : vars c d) : Matches rel same (Run.loop body bound c) (Run.loop body' bound d) := by
  induction bound generalizing c d with
  | zero => exact of_failure
  | succ bound ih =>
      refine (bodies c d start).bind fun round round' ends => ?_
      cases round with
      | again next =>
          cases round' with
          | again next' => exact ih ends
          | leave result => exact ends.elim
      | leave result =>
          cases round' with
          | again next' => exact ends.elim
          | leave result' => exact of_pure ends

/-! ## Steps of one side alone -/

theorem require_bind {cond : Prop} [Decidable cond] {next : Unit -> Run S α} (passes : cond)
    (rest : Matches rel same (next ()) other) : Matches rel same (require cond >>= next) other := by
  rw [require_of passes, pure_bind]
  exact rest

/-- A check that is made once more further on may be made early. -/
theorem require_early {cond : Prop} [Decidable cond] {next : Unit -> Run S α} {nextOther : Unit -> Run T β}
    (rest : cond -> Matches rel same (next ()) (require cond >>= nextOther)) :
    Matches rel same (require cond >>= next) (require cond >>= nextOther) := by
  by_cases passes : cond
  · exact require_bind passes (rest passes)
  · intro s t _
    rw [require, require, if_neg passes, if_neg passes]
    trivial

theorem require_bind_early {cond before : Prop} [Decidable cond] [Decidable before] {next : Unit -> Run S α}
    {nextOther : Unit -> Run T β}
    (rest : cond -> Matches rel same (next ()) (require before >>= fun _ => require cond >>= nextOther)) :
    Matches rel same (require cond >>= next) (require before >>= fun _ => require cond >>= nextOther) := by
  by_cases passes : cond
  · exact require_bind passes (rest passes)
  · intro s t _
    have wrong : (require before >>= fun _ => require cond >>= nextOther) t = none := by
      rw [require, require, if_neg passes]
      split <;> rfl
    rw [wrong, require, if_neg passes]
    trivial

/-- A step that the other side does not see. -/
theorem silent_bind {f : S -> S} {next : Unit -> Run S α} (step : forall s t, rel s t -> rel (f s) t)
    (rest : Matches rel same (next ()) other) : Matches rel same (modify f >>= next) other :=
  fun s t related => rest (f s) t (step s t related)

/-- What follows only hands the result on, as long as it is one that the run can have. -/
theorem bind_checked {other : Run T α} {next : α -> Run S α} {possible : α -> Prop}
    (first : Matches rel Eq run other) (checked : forall t, Allows other t fun a _ => possible a)
    (second : forall a, possible a -> Matches rel Eq (next a) (pure a : Run T α)) :
    Matches rel Eq (run >>= next) other := by
  intro s t related
  have ends := first s t related
  change Matched rel Eq ((run s).bind fun pair => next pair.1 pair.2) _
  cases left : run s with
  | none =>
      rw [left] at ends
      exact ends
  | some pair =>
      cases right : other t with
      | none =>
          rw [left, right] at ends
          exact ends.elim
      | some pair' =>
          rw [left, right] at ends
          rcases pair with ⟨a, s'⟩
          rcases pair' with ⟨b, t'⟩
          rcases ends with ⟨rfl, kept⟩
          exact second a (checked t a t' right) s' t' kept

/-- What follows only hands the result on. -/
theorem bind_silent {other : Run T α} {next : α -> Run S α} (first : Matches rel Eq run other)
    (second : forall a, Matches rel Eq (next a) (pure a : Run T α)) : Matches rel Eq (run >>= next) other := by
  have possible : forall t, Allows other t fun _ _ => True := fun _ _ _ _ => trivial
  exact first.bind_checked possible fun a _ => second a

/-! ## What is known of one side from the other -/

theorem ends_eq (runs : Matches rel same run other) (related : rel s t) {a : α} {s' : S} (ran : run s = some (a, s')) :
    exists b t', other t = some (b, t') ∧ same a b ∧ rel s' t' := by
  have ends := runs s t related
  rw [ran] at ends
  cases right : other t with
  | none =>
      rw [right] at ends
      exact ends.elim
  | some pair =>
      rw [right] at ends
      exact ⟨pair.1, pair.2, rfl, ends.1, ends.2⟩

theorem ends (runs : Matches rel same run other) (related : rel s t) {post : β -> T -> Prop}
    (holds : Ends other t post) : Ends run s fun a s' => exists b t', same a b ∧ rel s' t' ∧ post b t' := by
  rcases holds with ⟨b, t', ran, after⟩
  have both := runs s t related
  rw [ran] at both
  cases left : run s with
  | none =>
      rw [left] at both
      exact both.elim
  | some pair =>
      rw [left] at both
      exact ⟨pair.1, pair.2, left, b, t', both.1, both.2, after⟩

/-- Where the one side's states are a view of the other's, so is what the runs come to. -/
theorem map_eq {view : S -> T} {fact : S -> Prop} {other : Run T α}
    (runs : Matches (fun s t => fact s ∧ view s = t) Eq run other) (holds : fact s) :
    (run s).map (fun pair => (pair.1, view pair.2)) = other (view s) := by
  have ends := runs s (view s) ⟨holds, rfl⟩
  cases left : run s with
  | none =>
      cases right : other (view s) with
      | none => rfl
      | some pair =>
          rw [left, right] at ends
          exact ends.elim
  | some pair =>
      cases right : other (view s) with
      | none =>
          rw [left, right] at ends
          exact ends.elim
      | some pair' =>
          rw [left, right] at ends
          exact congrArg some (Prod.ext ends.1 ends.2.2)

end Matches
end Run
end Foundation
end TerseDsa
