import Mathlib.Data.List.Basic

/-! Runs of a partial step function whose every step meets a guard.
The guard sees the state before the step and the action; the unguarded runs
are those of the guard `free`. Invariants are proved once by induction on the
run, and concrete runs are evaluated by `replay`. -/

namespace TQDBProxy.GuardedRuns

variable {σ α : Type*}

/-- States reached from `init` by enabled steps that each meet `guard`. -/
inductive Reach (step : σ → α → Option σ) (guard : σ → α → Prop) (init : σ) : σ → Prop where
  | start : Reach step guard init init
  | next {s t : σ} {a : α} : Reach step guard init s → guard s a → step s a = some t →
      Reach step guard init t

def free : σ → α → Prop := fun _ _ => True

variable {step : σ → α → Option σ} {guard : σ → α → Prop} {init : σ}

theorem Reach.invariant {P : σ → Prop} (start : P init)
    (preserve : ∀ s a t, P s → guard s a → step s a = some t → P t)
    {s : σ} (reach : Reach step guard init s) : P s := by
  induction reach with
  | start => exact start
  | next _ meets taken ih => exact preserve _ _ _ ih meets taken

theorem Reach.weaken {guard' : σ → α → Prop} {P : σ → Prop} (start : P init)
    (preserve : ∀ s a t, P s → guard s a → step s a = some t → P t)
    (weaker : ∀ s a, P s → guard s a → guard' s a)
    {s : σ} (reach : Reach step guard init s) : Reach step guard' init s := by
  suffices h : P s ∧ Reach step guard' init s from h.2
  induction reach with
  | start => exact ⟨start, .start⟩
  | next _ meets taken ih =>
    exact ⟨preserve _ _ _ ih.1 meets taken, ih.2.next (weaker _ _ ih.1 meets) taken⟩

def replay (step : σ → α → Option σ) : σ → List α → Option σ
  | s, [] => some s
  | s, a :: rest => (step s a).bind (replay step · rest)

def checked (step : σ → α → Option σ) (check : σ → α → Bool) (s : σ) (a : α) : Option σ :=
  if check s a then step s a else none

theorem checked_eq_some {check : σ → α → Bool} {s t : σ} {a : α} :
    checked step check s a = some t ↔ check s a = true ∧ step s a = some t := by
  simp [checked]

/-- The invariant rule for replays; only the actions replayed have to keep `P`. -/
theorem replay_preserves {P : σ → Prop} {s t : σ} (as : List α) (start : P s)
    (preserve : ∀ s a t, a ∈ as → P s → step s a = some t → P t)
    (run : replay step s as = some t) : P t := by
  induction as generalizing s with
  | nil =>
    obtain rfl : s = t := by simpa [replay] using run
    exact start
  | cons a rest ih =>
    obtain ⟨u, taken, run⟩ := Option.bind_eq_some_iff.mp run
    refine ih (preserve s a u (List.mem_cons_self ..) start taken) ?_ run
    exact fun s a t mem => preserve s a t (List.mem_cons_of_mem _ mem)

theorem replay_keeps (check : σ → α → Bool) {P : σ → Prop} {s t : σ} (as : List α)
    (start : P s) (preserve : ∀ s a t, a ∈ as → P s → step s a = some t → P t)
    (run : replay (checked step check) s as = some t) : P t :=
  replay_preserves as start
    (fun s a t mem good taken => preserve s a t mem good (checked_eq_some.mp taken).2) run

/-- A property that each step keeps exactly when it passes the test holds at the end of a
replay exactly when it held at the start and every step passed. -/
theorem replay_checked_iff_of {check : σ → α → Bool} {P Q : σ → Prop}
    (preserve : ∀ s a t, Q s → step s a = some t → Q t)
    (one : ∀ s a t, Q s → step s a = some t → (P t ↔ P s ∧ check s a = true)) {s t : σ}
    (start : Q s) (as : List α) (run : replay step s as = some t) :
    P t ↔ P s ∧ replay (checked step check) s as = some t := by
  induction as generalizing s with
  | nil =>
    obtain rfl : s = t := by simpa [replay] using run
    simp [replay]
  | cons a rest ih =>
    obtain ⟨u, taken, run⟩ := Option.bind_eq_some_iff.mp run
    rw [ih (preserve s a u start taken) run, one s a u start taken]
    cases passed : check s a with
    | false => simp [replay, checked, passed]
    | true => simp [replay, checked, passed, taken]

theorem replay_checked_iff {check : σ → α → Bool} {P : σ → Prop}
    (one : ∀ s a t, step s a = some t → (P t ↔ P s ∧ check s a = true)) {s t : σ} (as : List α)
    (run : replay step s as = some t) :
    P t ↔ P s ∧ replay (checked step check) s as = some t :=
  replay_checked_iff_of (Q := fun _ => True) (fun _ _ _ _ _ => trivial) (fun s a t _ => one s a t)
    trivial as run

theorem replay_of_checked {check : σ → α → Bool} {s t : σ} (as : List α)
    (run : replay (checked step check) s as = some t) : replay step s as = some t := by
  induction as generalizing s with
  | nil => exact run
  | cons a rest ih =>
    obtain ⟨u, taken, run⟩ := Option.bind_eq_some_iff.mp run
    rw [replay, (checked_eq_some.mp taken).2]
    exact ih run

theorem replay_invariant {P : σ → Prop} (preserve : ∀ s a t, P s → step s a = some t →
    P t) {s t : σ}
    (start : P s) (as : List α) (run : replay step s as = some t) : P t :=
  replay_preserves as start (fun s a t _ => preserve s a t) run

def Always (step : σ → α → Option σ) (P : σ → Prop) (s : σ) (as : List α) : Prop :=
  ∀ front, front <+: as → ∀ t, replay step s front = some t → P t

/-- Where each step from a good state leads to a good one exactly when it passes the test,
a replay stays good exactly when every step passes. -/
theorem always_iff_checked {check : σ → α → Bool} {P Q : σ → Prop}
    (preserve : ∀ s a t, Q s → step s a = some t → Q t)
    (one : ∀ s a t, Q s → P s → step s a = some t → (P t ↔ check s a = true)) {s t : σ}
    (start : Q s) (good : P s) (as : List α) (run : replay step s as = some t) :
    Always step P s as ↔ replay (checked step check) s as = some t := by
  induction as generalizing s with
  | nil =>
    obtain rfl : s = t := by simpa [replay] using run
    refine ⟨fun _ => rfl, fun _ front pre u reached => ?_⟩
    obtain rfl : front = [] := by simpa using pre
    obtain rfl : s = u := by simpa [replay] using reached
    exact good
  | cons a rest ih =>
    obtain ⟨u, taken, remaining⟩ := Option.bind_eq_some_iff.mp run
    have step_iff := one s a u start good taken
    constructor
    · intro always
      have better : P u := always [a] (by simp) u (by simp [replay, taken])
      have later : Always step P u rest := by
        intro front pre v reached
        exact always (a :: front) (List.cons_prefix_cons.mpr ⟨rfl, pre⟩) v
          (by simp [replay, taken, reached])
      have passed := step_iff.mp better
      have checkedRun := (ih (preserve s a u start taken) better remaining).mp later
      simp [replay, checked, passed, taken, checkedRun]
    · intro checkedRun front pre v reached
      obtain ⟨u', taken', later⟩ := Option.bind_eq_some_iff.mp checkedRun
      obtain ⟨passed, taken'⟩ := checked_eq_some.mp taken'
      obtain rfl : u = u' := Option.some.inj (taken.symm.trans taken')
      have better := step_iff.mpr passed
      cases front with
      | nil =>
        obtain rfl : s = v := by simpa [replay] using reached
        exact good
      | cons b front =>
        obtain ⟨rfl, inner⟩ := List.cons_prefix_cons.mp pre
        refine (ih (preserve s b u start taken) better remaining).mpr later front inner v ?_
        simpa [replay, taken] using reached

/-- A replay that passes the test at each step is a guarded run; the test has to imply the
guard only on states with a property the replay keeps. -/
theorem reach_of_replay (check : σ → α → Bool) {P : σ → Prop} {s t : σ} (as : List α)
    (start : P s) (preserve : ∀ s a t, a ∈ as → P s → step s a = some t → P t)
    (sound : ∀ s a, P s → check s a = true → guard s a)
    (run : replay (checked step check) s as = some t) : Reach step guard s t := by
  have both : P t ∧ Reach step guard s t := by
    refine replay_preserves (P := fun u => P u ∧ Reach step guard s u) as ⟨start, .start⟩ ?_ run
    rintro u a v mem ⟨good, reach⟩ taken
    obtain ⟨passed, taken⟩ := checked_eq_some.mp taken
    exact ⟨preserve u a v mem good taken, reach.next (sound u a good passed) taken⟩
  exact both.2

theorem reach_of_test (check : σ → α → Bool) {P : σ → Prop} {s : σ} (as : List α)
    (start : P s) (preserve : ∀ s a t, a ∈ as → P s → step s a = some t → P t)
    (sound : ∀ s a, P s → check s a = true → guard s a) (test : σ → Bool)
    (passed : (replay (checked step check) s as).map test = some true) :
    ∃ t, Reach step guard s t ∧ P t ∧ test t = true := by
  obtain ⟨t, run, ok⟩ := Option.map_eq_some_iff.mp passed
  exact ⟨t, reach_of_replay check as start preserve sound run,
    replay_keeps check as start preserve run, ok⟩

theorem checked_of_test (step : σ → α → Option σ) (check : σ → α → Bool) (s : σ) (as : List α)
    (test : σ → Bool) (passed : (replay (checked step check) s as).map test = some true) :
    ∃ t, Reach step (fun s a => check s a = true) s t ∧ test t = true := by
  obtain ⟨t, reach, _, ok⟩ := reach_of_test (P := fun _ => True) check as trivial
    (fun _ _ _ _ _ _ => trivial) (fun _ _ _ passed => passed) test passed
  exact ⟨t, reach, ok⟩

theorem free_of_test (step : σ → α → Option σ) (s : σ) (as : List α) (test : σ → Bool)
    (passed : (replay (checked step fun _ _ => true) s as).map test = some true) :
    ∃ t, Reach step free s t ∧ test t = true := by
  obtain ⟨t, reach, _, ok⟩ := reach_of_test (P := fun _ => True) (fun _ _ => true) as trivial
    (fun _ _ _ _ _ _ => trivial) (fun _ _ _ _ => trivial) test passed
  exact ⟨t, reach, ok⟩

end TQDBProxy.GuardedRuns
