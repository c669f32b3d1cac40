import TQDBProxy.QueryCache

/-! Isolation of the query cache. The key of a text statement is its stripped text
alone, so an entry is only known to come from a statement of the same text; the
protocol and the database agree when no text is sent from two of them. -/

namespace TQDBProxy.QueryCache

open GuardedRuns TQDBProxy.Parser

variable {statement : RequestId → Statement} {s t : State} {a : Action} {i : RequestId} {p : Point}
  {b : Answers}

/-- Entries come from requests of their key, and so does what is served. -/
structure Provenance (statement : RequestId → Statement) (s : State) : Prop where
  store : ∀ key e, s.store key = some e → (statement e.storedBy).key = key ∧ e.storedBy ∈ s.arrived
  served : ∀ i e, s.points i = .served e →
    (statement e.storedBy).key = (statement i).key ∧ e.storedBy ∈ s.arrived
  present : ∀ i, s.points i ≠ .absent → i ∈ s.arrived

theorem provenance_start : Provenance statement {} := by
  constructor <;> simp

theorem Progress.served_entry {e : Entry} (progress : Progress statement s a i (.served e) b) :
    s.store (statement i).key = some e := by
  cases progress <;> assumption

theorem provenance_step (before : Provenance statement s) (taken : step statement s a = some t) :
    Provenance statement t := by
  rcases step_stepped taken with ⟨key, rfl⟩ | ⟨i, p, b, stepped⟩
  · refine { before with store := ?_ }
    intro key' e found
    by_cases same : key' = key
    · simp [State.setEntry, same] at found
    · exact before.store key' e (by simpa [State.setEntry, same] using found)
  · have grown : ∀ j, j ∈ s.arrived → j ∈ t.arrived := by
      intro j mem
      rw [stepped.arrived]
      split
      · exact List.mem_cons_of_mem _ mem
      · exact mem
    have own : i ∈ t.arrived := by
      rw [stepped.arrived]
      split
      · exact List.mem_cons_self
      · rename_i other
        exact before.present i (stepped.progress.present other)
    constructor
    · intro key e found
      rcases stepped.store key e found with old | ⟨same, stored⟩
      · exact ⟨(before.store key e old).1, grown _ (before.store key e old).2⟩
      · rw [stored]
        exact ⟨same.symm, own⟩
    · intro j e point
      rw [stepped.points] at point
      by_cases same : j = i
      · subst j
        rw [Function.update_self] at point
        subst point
        obtain ⟨key, mem⟩ := before.store _ e stepped.progress.served_entry
        exact ⟨key, grown _ mem⟩
      · rw [Function.update_of_ne same] at point
        exact ⟨(before.served j e point).1, grown _ (before.served j e point).2⟩
    · intro j point
      rw [stepped.points] at point
      by_cases same : j = i
      · subst j
        exact own
      · rw [Function.update_of_ne same] at point
        exact grown j (before.present j point)

def together (q r : Statement) : Bool := q.key != r.key || (q.protocol = r.protocol && q.db = r.db)

theorem together_of_key {q r : Statement} (both : together q r = true) (same : q.key = r.key) :
    q.protocol = r.protocol ∧ q.db = r.db := by
  simpa [together, same] using both

theorem together_comm (q r : Statement) : together q r = together r q := by
  simp only [together, bne, Bool.beq_comm (a := q.key), eq_comm (a := q.protocol),
    eq_comm (a := q.db)]

def keepsApart (statement : RequestId → Statement) (s : State) : Action → Bool
  | .arrive i => s.arrived.all fun j => together (statement i) (statement j)
  | _ => true

def Apart (statement : RequestId → Statement) (s : State) : Prop :=
  ∀ i ∈ s.arrived, ∀ j ∈ s.arrived, together (statement i) (statement j) = true

theorem apart_step (before : Apart statement s) (guard : keepsApart statement s a = true)
    (taken : step statement s a = some t) : Apart statement t := by
  rcases step_stepped taken with ⟨key, rfl⟩ | ⟨i, p, b, stepped⟩
  · exact before
  · unfold Apart
    rw [stepped.arrived]
    split
    · rename_i new
      subst new
      have fresh : ∀ j ∈ s.arrived, together (statement i) (statement j) = true := by
        simpa [keepsApart] using guard
      intro j mem k mem'
      rcases List.mem_cons.mp mem with rfl | old <;> rcases List.mem_cons.mp mem' with rfl | old'
      · simp [together]
      · exact fresh k old'
      · rw [together_comm]
        exact fresh j old
      · exact before j old k old'
    · exact before

theorem reach_provenance {guard : State → Action → Prop}
    (reach : Reach (step statement) guard {} s) : Provenance statement s :=
  reach.invariant provenance_start fun _ _ _ before _ taken => provenance_step before taken

theorem cache_isolated
    (reach : Reach (step statement) (fun s a => keepsApart statement s a = true) {} s) {e : Entry}
    (served : s.points i = .served e) :
    (statement e.storedBy).protocol = (statement i).protocol ∧
      (statement e.storedBy).db = (statement i).db ∧
      (statement e.storedBy).parsed.query = (statement i).parsed.query := by
  have provenance := reach_provenance reach
  have apart : Apart statement s :=
    reach.invariant (P := Apart statement) (by simp [Apart]) fun _ _ _ => apart_step
  obtain ⟨same, stored⟩ := provenance.served i e served
  have arrived : i ∈ s.arrived := provenance.present i (by simp [served])
  obtain ⟨protocol, db⟩ := together_of_key (apart _ stored i arrived) same
  exact ⟨protocol, db, same⟩

def selectsFrom (conns : List (Protocol × String)) (i : RequestId) : Statement where
  protocol := (conns.getD i (.mariadb, "a")).1
  db := lit (conns.getD i (.mariadb, "a")).2
  parsed := parse (lit "/* ttl:60 */ SELECT a FROM t")

def oneDatabase : RequestId → Statement := selectsFrom []

def twoDatabases : RequestId → Statement :=
  selectsFrom [(.mariadb, "a"), (.mariadb, "b"), (.postgres, "a")]

/-- Request 0 fetches and stores while request 2 waits in flight; request 1 comes later. -/
def sharing : List Action :=
  [.arrive 0, .read 0 .fresh, .read 0 .fresh, .loadOrStore 0,
   .arrive 2, .read 2 .fresh, .read 2 .fresh, .loadOrStore 2, .respond 0 [1], .notify 0,
   .wake 2, .read 2 .fresh, .arrive 1, .read 1 .fresh]

theorem cache_isolated_one_database :
    ∃ s : State, s.points 1 = .served ⟨[1], 0⟩ ∧
      (oneDatabase 0).protocol = (oneDatabase 1).protocol ∧
        (oneDatabase 0).db = (oneDatabase 1).db ∧
      (oneDatabase 0).parsed.query = (oneDatabase 1).parsed.query := by
  obtain ⟨s, reach, seen⟩ := checked_of_test (step oneDatabase) (keepsApart oneDatabase) {} sharing
    (fun s => s.points 1 = .served ⟨[1], 0⟩) (by decide +kernel)
  have served : s.points 1 = .served ⟨[1], 0⟩ := by simpa using seen
  exact ⟨s, served, cache_isolated reach served⟩

/-- The result of a MariaDB client of database `a` answers a client of database `b`
and a PostgreSQL client. -/
theorem cache_crosses_databases :
    (twoDatabases 1).db ≠ (twoDatabases 0).db ∧
    (twoDatabases 2).protocol ≠ (twoDatabases 0).protocol ∧
      ∃ s, Reach (step twoDatabases) free {} s ∧
        s.points 1 = .served ⟨[1], 0⟩ ∧ s.points 2 = .served ⟨[1], 0⟩ := by
  refine ⟨by decide, by decide, ?_⟩
  obtain ⟨s, reach, seen⟩ := free_of_test (step twoDatabases) {} sharing
    (fun s => s.points 1 = .served ⟨[1], 0⟩ && s.points 2 = .served ⟨[1], 0⟩) (by decide +kernel)
  exact ⟨s, reach, by simpa using seen⟩

end TQDBProxy.QueryCache
