import TerseDsa.Foundation.Run

namespace TerseDsa
namespace Foundation

/-!
# Scans that may stop early

A scan asks about one index after the other, upwards or downwards, and stops
where the body leaves.  A scan that changes nothing stops at the first index,
or the last one, of which something is true.
-/

namespace Run

variable {S β γ : Type}

/-- What holds of a round, by how it ends. -/
def Round.Meets (again : β -> Prop) (leave : γ -> Prop) : Round β γ -> Prop
  | .again next => again next
  | .leave result => leave result

@[simp] theorem Round.meets_again (again : β -> Prop) (leave : γ -> Prop) (next : β) :
    (Round.again next).Meets again leave <-> again next := Iff.rfl

@[simp] theorem Round.meets_leave (again : β -> Prop) (leave : γ -> Prop) (result : γ) :
    (Round.leave result).Meets again leave <-> leave result := Iff.rfl

/-- The result of a scan, which may have gone through all of its indices. -/
def Round.close (ended : β -> γ) : Round β γ -> γ
  | .again b => ended b
  | .leave result => result

@[simp] theorem Round.close_leave (ended : β -> γ) (result : γ) :
    (Round.leave result : Round β γ).close ended = result := rfl

/-- Run the body for every index from `idx` on, `todo` of them, until it leaves. -/
def scanUp (body : Nat -> β -> Run S (Round β γ)) : (todo idx : Nat) -> β -> Run S (Round β γ)
  | 0, _, b => pure (.again b)
  | todo + 1, idx, b => do
      match ← body idx b with
      | .again next => scanUp body todo (idx + 1) next
      | .leave result => pure (.leave result)

/-- Run the body for every index below `count`, the last one first, until it leaves. -/
def scanDown (body : Nat -> β -> Run S (Round β γ)) : (count : Nat) -> β -> Run S (Round β γ)
  | 0, b => pure (.again b)
  | idx + 1, b => do
      match ← body idx b with
      | .again next => scanDown body idx next
      | .leave result => pure (.leave result)

/-- Run the body for every index below `count`, the last one first. -/
def countDown (body : Nat -> β -> Run S β) : (count : Nat) -> β -> Run S β
  | 0, b => pure b
  | idx + 1, b => do
      let next ← body idx b
      countDown body idx next

/-- The rule for counts downwards: `inv count b s` holds when `count` indices are left. -/
theorem ends_countDown {body : Nat -> β -> Run S β} {post : β -> S -> Prop} (inv : Nat -> β -> S -> Prop) {count : Nat}
    (step : forall i b s, i < count -> inv (i + 1) b s -> Ends (body i b) s (inv i))
    (done : forall b s, inv 0 b s -> post b s) {b : β} {s : S} (holds : inv count b s) :
    Ends (countDown body count b) s post := by
  induction count generalizing b s with
  | zero => exact (ends_pure _ _ _).mpr (done b s holds)
  | succ count ih =>
      simp only [countDown, ends_bind]
      refine (step count b s (Nat.lt_succ_self count) holds).mono ?_
      intro next t after
      exact ih (fun i c u low => step i c u (Nat.lt_succ_of_lt low)) after

/-- The rule for scans upwards: `inv idx b s` holds when index `idx` is next. -/
theorem ends_scanUp {body : Nat -> β -> Run S (Round β γ)} {post : Round β γ -> S -> Prop}
    (inv : Nat -> β -> S -> Prop) {todo idx stop : Nat} (len : idx + todo = stop)
    (step : forall i b s, idx ≤ i -> i < stop -> inv i b s ->
      Ends (body i b) s fun round t => round.Meets (fun next => inv (i + 1) next t) fun result => post (.leave result) t)
    (done : forall b s, inv stop b s -> post (.again b) s) {b : β} {s : S} (holds : inv idx b s) :
    Ends (scanUp body todo idx b) s post := by
  induction todo generalizing idx b s with
  | zero =>
      have same : idx = stop := len
      exact (ends_pure _ _ _).mpr (done b s (same ▸ holds))
  | succ todo ih =>
      simp only [scanUp, ends_bind]
      refine (step idx b s (Nat.le_refl idx) (by omega) holds).mono ?_
      intro round t after
      cases round with
      | again next => exact ih (by omega) (fun i c u low => step i c u (Nat.le_of_succ_le low)) after
      | leave result => exact (ends_pure _ _ _).mpr after

/-- The rule for scans downwards: `inv count b s` holds when `count` indices are left. -/
theorem ends_scanDown {body : Nat -> β -> Run S (Round β γ)} {post : Round β γ -> S -> Prop}
    (inv : Nat -> β -> S -> Prop) {count : Nat}
    (step : forall i b s, i < count -> inv (i + 1) b s ->
      Ends (body i b) s fun round t => round.Meets (fun next => inv i next t) fun result => post (.leave result) t)
    (done : forall b s, inv 0 b s -> post (.again b) s) {b : β} {s : S} (holds : inv count b s) :
    Ends (scanDown body count b) s post := by
  induction count generalizing b s with
  | zero => exact (ends_pure _ _ _).mpr (done b s holds)
  | succ count ih =>
      simp only [scanDown, ends_bind]
      refine (step count b s (Nat.lt_succ_self count) holds).mono ?_
      intro round t after
      cases round with
      | again next => exact ih (fun i c u low => step i c u (Nat.lt_succ_of_lt low)) after
      | leave result => exact (ends_pure _ _ _).mpr after

section Unchanged

variable {body : Nat -> β -> Run S (Round β γ)} {post : Round β γ -> S -> Prop} {b : β} {s : S}

/-- A scan upwards that changes nothing stops at the first hit. -/
theorem ends_scanUp_first (hit : Nat -> Prop) (is : Nat -> γ -> Prop) {todo idx stop : Nat} (len : idx + todo = stop)
    (step : forall i b, idx ≤ i -> i < stop ->
      Ends (body i b) s fun round t => t = s ∧ round.Meets (fun _ => ¬ hit i) fun result => hit i ∧ is i result)
    (found : forall i result, idx ≤ i -> i < stop -> hit i -> (forall k, idx ≤ k -> k < i -> ¬ hit k) -> is i result ->
      post (.leave result) s)
    (missing : forall b, (forall k, idx ≤ k -> k < stop -> ¬ hit k) -> post (.again b) s) :
    Ends (scanUp body todo idx b) s post := by
  apply ends_scanUp (fun i _ t => t = s ∧ forall k, idx ≤ k -> k < i -> ¬ hit k) len
  · rintro i c t low high ⟨rfl, none_⟩
    refine (step i c low high).mono ?_
    rintro round t ⟨rfl, after⟩
    cases round with
    | again next =>
        refine ⟨rfl, fun k from_ below => ?_⟩
        rcases Nat.lt_succ_iff_lt_or_eq.mp below with earlier | rfl
        · exact none_ k from_ earlier
        · exact after
    | leave result => exact found i result low high after.1 none_ after.2
  · rintro c t ⟨rfl, none_⟩
    exact missing c none_
  · exact ⟨rfl, fun k from_ below => absurd below (Nat.not_lt.mpr from_)⟩

/-- A scan downwards that changes nothing stops at the last hit. -/
theorem ends_scanDown_last (hit : Nat -> Prop) (is : Nat -> γ -> Prop) {count : Nat}
    (step : forall i b, i < count ->
      Ends (body i b) s fun round t => t = s ∧ round.Meets (fun _ => ¬ hit i) fun result => hit i ∧ is i result)
    (found : forall i result, i < count -> hit i -> (forall k, i < k -> k < count -> ¬ hit k) -> is i result ->
      post (.leave result) s)
    (missing : forall b, (forall k, k < count -> ¬ hit k) -> post (.again b) s) :
    Ends (scanDown body count b) s post := by
  apply ends_scanDown (fun i _ t => t = s ∧ forall k, i ≤ k -> k < count -> ¬ hit k)
  · rintro i c t high ⟨rfl, none_⟩
    refine (step i c high).mono ?_
    rintro round t ⟨rfl, after⟩
    cases round with
    | again next =>
        refine ⟨rfl, fun k from_ below => ?_⟩
        rcases Nat.eq_or_lt_of_le from_ with rfl | later
        · exact after
        · exact none_ k later below
    | leave result => exact found i result high after.1 none_ after.2
  · rintro c t ⟨rfl, none_⟩
    exact missing c fun k => none_ k (Nat.zero_le k)
  · exact ⟨rfl, fun k from_ below => absurd below (Nat.not_lt.mpr from_)⟩

end Unchanged

end Run

/-! ## The first and the last -/

section Extremes

variable {hit : Nat -> Prop} {out idx place : Nat} {found again : Bool}

/-- What a search for the first hit says, and leaves in a place that held `out`. -/
def First (hit : Nat -> Prop) (out : Nat) (found : Bool) (idx : Nat) : Prop :=
  (found = true ∧ hit idx ∧ forall k, k < idx -> ¬ hit k) ∨ (found = false ∧ idx = out ∧ forall k, ¬ hit k)

/-- What a search for the last hit says, and leaves in a place that held `out`. -/
def Last (hit : Nat -> Prop) (out : Nat) (found : Bool) (idx : Nat) : Prop :=
  (found = true ∧ hit idx ∧ forall k, idx < k -> ¬ hit k) ∨ (found = false ∧ idx = out ∧ forall k, ¬ hit k)

theorem First.found_iff (first : First hit out found idx) : found = true <-> exists k, hit k := by
  rcases first with ⟨rfl, here, _⟩ | ⟨rfl, _, none_⟩
  · exact ⟨fun _ => ⟨idx, here⟩, fun _ => rfl⟩
  · exact ⟨fun impossible => absurd impossible (by decide), fun ⟨k, here⟩ => absurd here (none_ k)⟩

theorem First.unique (first : First hit out found idx) (also : First hit out again place) :
    found = again ∧ idx = place := by
  rcases first with ⟨rfl, here, before⟩ | ⟨rfl, rfl, none_⟩
  · rcases also with ⟨rfl, there, beforeToo⟩ | ⟨_, _, none_⟩
    · refine ⟨rfl, ?_⟩
      rcases Nat.lt_trichotomy idx place with less | same | more
      · exact absurd here (beforeToo idx less)
      · exact same
      · exact absurd there (before place more)
    · exact absurd here (none_ idx)
  · rcases also with ⟨_, there, _⟩ | ⟨rfl, rfl, _⟩
    · exact absurd there (none_ place)
    · exact ⟨rfl, rfl⟩

end Extremes

/-! ## Runs of hits -/

section Windows

variable {hit : Nat -> Prop} {count i run : Nat}

/-- `count` hits in a row, the first of them at `k`. -/
def Window (hit : Nat -> Prop) (count k : Nat) : Prop := forall j, j < count -> hit (k + j)

/-- Before `i` there is no window yet, and just before it are exactly `run` hits. -/
structure Running (hit : Nat -> Prop) (count i run : Nat) : Prop where
  short : run < count
  inside : run ≤ i
  all : forall k, i ≤ k + run -> k < i -> hit k
  stops : run < i -> ¬ hit (i - run - 1)
  none_ : forall k, k + count ≤ i -> ¬ Window hit count k

namespace Running

theorem start (some_ : 0 < count) : Running hit count 0 0 where
  short := some_
  inside := Nat.le_refl 0
  all k _ below := absurd below (Nat.not_lt_zero k)
  stops impossible := absurd impossible (Nat.lt_irrefl 0)
  none_ k early := absurd early (by omega)

/-- One hit more completes no window: a window that ended here would reach back to the
miss before the run. -/
theorem longer (running : Running hit count i run) (here : hit i) (still : run + 1 < count) :
    Running hit count (i + 1) (run + 1) := by
  have inside := running.inside
  have back : i + 1 - (run + 1) - 1 = i - run - 1 := by omega
  refine ⟨still, by omega, fun k late below => ?_, fun less => ?_, fun k early window => ?_⟩
  · rcases Nat.lt_succ_iff_lt_or_eq.mp below with earlier | rfl
    · exact running.all k (by omega) earlier
    · exact here
  · rw [back]
    exact running.stops (by omega)
  · rcases Nat.lt_succ_iff_lt_or_eq.mp (Nat.lt_succ_of_le early) with earlier | ends
    · exact running.none_ k (by omega) window
    · have reached := window (i - run - 1 - k) (by omega)
      rw [show k + (i - run - 1 - k) = i - run - 1 by omega] at reached
      exact running.stops (by omega) reached

/-- A miss is in no window, and the run starts again behind it. -/
theorem again (running : Running hit count i run) (miss : ¬ hit i) : Running hit count (i + 1) 0 := by
  have short := running.short
  refine ⟨by omega, Nat.zero_le _, fun k late below => absurd below (by omega), fun _ => miss, fun k early window => ?_⟩
  rcases Nat.lt_succ_iff_lt_or_eq.mp (Nat.lt_succ_of_le early) with earlier | ends
  · exact running.none_ k (by omega) window
  · have reached := window (i - k) (by omega)
    rw [show k + (i - k) = i by omega] at reached
    exact miss reached

/-- With the hit that completes it, the run is the first window. -/
theorem complete (running : Running hit count i run) (here : hit i) (last : run + 1 = count) :
    Window hit count (i + 1 - count) ∧ forall k, k < i + 1 - count -> ¬ Window hit count k := by
  have inside := running.inside
  refine ⟨fun j below => ?_, fun k early => running.none_ k (by omega)⟩
  rcases Nat.lt_or_eq_of_le (show i + 1 - count + j ≤ i by omega) with earlier | same
  · exact running.all _ (by omega) earlier
  · rw [same]
    exact here

end Running
end Windows

end Foundation
end TerseDsa
