import TQDBProxy.QueryCache

/-! The session models take the two lookups of a cacheable statement as answered
from outside. Taken with the answers that a request gets from the shared cache, a
handler of either proxy serves the statement exactly when the request is served. -/

namespace TQDBProxy.QueryCache

open GuardedRuns TQDBProxy.Parser

variable {statement : RequestId → Statement} {s t : State} {a : Action} {i : RequestId} {p : Point}
  {b : Answers}

def Point.fits : Point → Answers → Prop
  | .absent, b | .get, b => b.hit = false ∧ b.getOrWait = (none, false)
  | .getOrWait, b | .loadOrStore, b | .wait _, b | .getAgain, b =>
    b.hit = false ∧ b.getOrWait = (none, false)
  | .execute, b | .notify, b | .finished, b => b.serve = false
  | .served _, b => b.serve = true

def Point.decided : Point → Bool
  | .execute | .notify | .finished | .served _ => true
  | _ => false

theorem Progress.fits (progress : Progress statement s a i p b)
    (before : (s.points i).fits (s.answers i)) : p.fits b := by
  cases progress with
  | arrive _ point | miss point | cold point | join f point | wake f point | store point =>
    rw [point] at before
    exact before
  | refresh e point =>
    rw [point] at before
    exact ⟨rfl, before.2⟩
  | hit e flag point found fresh =>
    simp [Point.fits, Answers.serve, Answers.hit, fresh]
  | found e point =>
    rw [point] at before
    simp only [Point.fits, Answers.serve, Bool.and_false, Bool.or_false]
    exact before.1
  | first point =>
    rw [point] at before
    simp [Point.fits, Answers.serve, before.1, before.2]
  | unanswered point =>
    have undecided : (s.answers i).hit = false := by
      rcases point with ⟨f, point⟩ | point <;> rw [point] at before <;> exact before.1
    simp only [Point.fits, Answers.serve, Option.isSome_none, Bool.false_and, Bool.or_false]
    exact undecided
  | given e point found => simp [Point.fits, Answers.serve]
  | finish point => rcases point with point | point <;> rw [point] at before <;> exact before

theorem fits_step (before : ∀ i, (s.points i).fits (s.answers i))
    (taken : step statement s a = some t) :
    ∀ i, (t.points i).fits (t.answers i) := by
  rcases step_stepped taken with ⟨key, rfl⟩ | ⟨i, p, b, stepped⟩
  · exact before
  · intro j
    rw [stepped.points, stepped.answers]
    by_cases same : j = i
    · subst j
      simpa using stepped.progress.fits (before i)
    · simpa [same] using before j

theorem cacheable_step (before : ∀ i, s.points i ≠ .absent →
    (statement i).parsed.isCacheable = true)
    (taken : step statement s a = some t) :
    ∀ i, t.points i ≠ .absent → (statement i).parsed.isCacheable = true := by
  rcases step_stepped taken with ⟨key, rfl⟩ | ⟨i, p, b, stepped⟩
  · exact before
  · intro j present
    rw [stepped.points] at present
    by_cases same : j = i
    · subst j
      by_cases arrives : a = .arrive i
      · subst arrives
        simp only [step] at taken
        split_ifs at taken with new
        exact new.2
      · exact before i (stepped.progress.present arrives)
    · exact before j (by simpa [same] using present)

theorem reach_answers {guard : State → Action → Prop} (reach : Reach (step statement) guard {} s) :
    (∀ i, (s.points i).fits (s.answers i)) ∧
      ∀ i, s.points i ≠ .absent → (statement i).parsed.isCacheable = true := by
  constructor
  · exact reach.invariant (P := fun s => ∀ i, (s.points i).fits (s.answers i))
      (fun _ => ⟨rfl, rfl⟩) fun _ _ _ before _ taken => fits_step before taken
  · exact reach.invariant
      (P := fun s => ∀ i, s.points i ≠ .absent → (statement i).parsed.isCacheable = true)
      (fun _ present => absurd rfl present) fun _ _ _ before _ taken => cacheable_step before taken

theorem serve_iff_served {guard : State → Action → Prop} (reach : Reach (step statement) guard {} s)
    (decided : (s.points i).decided = true) :
    (s.answers i).serve = true ↔ ∃ e, s.points i = .served e := by
  have fits := (reach_answers reach).1 i
  cases point : s.points i <;> simp_all [Point.fits, Point.decided]

theorem mariadb_serveCached {w : MariaDB.World} {parsed : ParsedQuery} {c : MariaDB.Session} :
    (MariaDB.serveCached w parsed c).isSome =
      (parsed.isCacheable && Answers.serve ⟨w.get, w.getOrWait⟩) := by
  unfold MariaDB.serveCached Answers.serve Answers.hit
  cases parsed.isCacheable with
  | false => rfl
  | true =>
    rcases w.get with _ | ⟨value, _ | _ | _⟩ <;> rcases w.getOrWait with ⟨_ | value, _ | _⟩ <;> rfl

theorem postgres_serveCached {w : Postgres.World} {parsed : ParsedQuery} {c : Postgres.Session} :
    (Postgres.serveCached w parsed c).isSome =
      (parsed.isCacheable && Answers.serve ⟨w.get, w.getOrWait⟩) := by
  unfold Postgres.serveCached Answers.serve Answers.hit
  cases parsed.isCacheable with
  | false => rfl
  | true =>
    rcases w.get with _ | ⟨value, _ | _ | _⟩ <;> rcases w.getOrWait with ⟨_ | value, _ | _⟩ <;> rfl

/-- The handlers and the cache agree on what is served. -/
theorem serveCached_iff_served {guard : State → Action → Prop}
    (reach : Reach (step statement) guard {} s) (decided : (s.points i).decided = true) :
    (∀ (w : MariaDB.World) (c : MariaDB.Session), w.get = (s.answers i).get →
      w.getOrWait = (s.answers i).getOrWait →
        ((MariaDB.serveCached w (statement i).parsed c).isSome = true ↔
          ∃ e, s.points i = .served e)) ∧
    (∀ (w : Postgres.World) (c : Postgres.Session), w.get = (s.answers i).get →
      w.getOrWait = (s.answers i).getOrWait →
        ((Postgres.serveCached w (statement i).parsed c).isSome = true ↔
          ∃ e, s.points i = .served e)) := by
  have cacheable : (statement i).parsed.isCacheable = true := by
    refine (reach_answers reach).2 i fun absent => ?_
    simp [absent, Point.decided] at decided
  constructor
  · intro w c get getOrWait
    rw [mariadb_serveCached, cacheable, get, getOrWait, Bool.true_and]
    exact serve_iff_served reach decided
  · intro w c get getOrWait
    rw [postgres_serveCached, cacheable, get, getOrWait, Bool.true_and]
    exact serve_iff_served reach decided

def selectsOne (_ : RequestId) : Statement := ⟨.mariadb, [], parse (lit "/* ttl:60 */ SELECT 1")⟩

theorem serveCached_iff_served_hit : ∃ s : State, s.points 1 = .served ⟨[1], 0⟩ ∧ ∀ c :
    MariaDB.Session,
    (MariaDB.serveCached { get := (s.answers 1).get, getOrWait := (s.answers 1).getOrWait }
      (selectsOne 1).parsed
      c).isSome = true := by
  obtain ⟨s, reach, seen⟩ := free_of_test (step selectsOne) {}
    [.arrive 0, .read 0 .fresh, .read 0 .fresh, .loadOrStore 0, .respond 0 [1], .notify 0,
      .arrive 1, .read 1 .fresh]
    (fun s => s.points 1 = .served ⟨[1], 0⟩) (by decide +kernel)
  have served : s.points 1 = .served ⟨[1], 0⟩ := by simpa using seen
  have decided : (s.points 1).decided = true := by rw [served]; rfl
  exact ⟨s, served, fun c => ((serveCached_iff_served reach decided).1 _ c rfl rfl).mpr ⟨_, served⟩⟩

end TQDBProxy.QueryCache
