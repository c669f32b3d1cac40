import TQDBProxy.CacheIsolation

/-! Single flight on a cold key. Requests for one key that nobody has stored are to be
answered by one fetch. A request whose first lookup missed asks again in `GetOrWait`: a
value that it finds there is not served but fetched once more, and a flight that is over
by the time of its `LoadOrStore` is started again. -/

namespace TQDBProxy.QueryCache

open GuardedRuns TQDBProxy.Parser

def Point.fetches : Point → Bool
  | .execute | .notify | .finished => true
  | _ => false

def Point.early : Point → Bool
  | .absent | .get | .getOrWait | .loadOrStore => true
  | _ => false

def Point.ended : Point → Bool
  | .served _ | .finished => true
  | _ => false

theorem Point.of_early {p : Point} (early : p.early = true) :
    p.fetches = false ∧ p.ended = false := by
  cases p with
  | absent | get | getOrWait | loadOrStore => exact ⟨rfl, rfl⟩
  | _ => cases early

/-- No fetch fails, no wait times out, no entry is lost and what is stored is fresh. -/
def calm (_ : State) : Action → Bool
  | .read _ flag => flag = .fresh
  | .timeout _ | .fail _ | .localInfile _ | .expire _ => false
  | _ => true

/-- `GetOrWait` finds neither a value nor, after the first one, a free place for a flight. -/
def joinsFlight (key : GoString) (s : State) : Action → Bool
  | .read i _ => !(s.points i = .getOrWait && (s.store key).isSome)
  | .loadOrStore _ => (s.inflight key).isSome || s.fresh = 0
  | _ => true

def SingleFlight (s : State) : Prop :=
  (∀ i j, (s.points i).fetches = true → (s.points j).fetches = true → i = j) ∧
  (s.arrived ≠ [] → (∀ i ∈ s.arrived, (s.points i).ended = true) →
    ∃ i ∈ s.arrived, s.points i = .finished ∧
      ∀ j ∈ s.arrived, j ≠ i → ∃ e, s.points j = .served e ∧ e.storedBy = i)

/-- A flight or a value is there because a request has fetched, and once a flight is over
the value is there. -/
structure Warm (key : GoString) (s : State) : Prop where
  cold : s.fresh = 0 → s.store key = none ∧ s.inflight key = none ∧ ∀ i, (s.points i).early = true
  fetcher : 0 < s.fresh → ∃ i, (s.points i).fetches = true
  done : ∀ f, s.done f = true → s.store key ≠ none
  stored : ∀ e, s.store key = some e → (s.points e.storedBy).fetches = true
  kept : ∀ i, s.points i = .getAgain ∨ s.points i = .notify → s.store key ≠ none
  served : ∀ i e, s.points i = .served e → (s.points e.storedBy).fetches = true

variable {statement : RequestId → Statement} {key : GoString} {s t : State} {a : Action}
  {i : RequestId}
  {p : Point}

theorem warm_start (key : GoString) : Warm key {} := by
  constructor <;> simp [Point.early]

theorem Warm.setPoint (warm : Warm key s) (fetching : (s.points i).fetches = true →
    p.fetches = true)
    (early : s.fresh = 0 → p.early = true) (kept : p = .getAgain ∨ p = .notify → s.store key ≠ none)
    (served : ∀ e, p = .served e → (s.points e.storedBy).fetches = true) :
      Warm key (s.setPoint i p) := by
  have still : ∀ j, (s.points j).fetches = true → ((s.setPoint i p).points j).fetches = true := by
    intro j was
    by_cases same : j = i
    · subst j
      simpa [State.setPoint] using fetching was
    · simpa [State.setPoint, same] using was
  refine ⟨fun none => ?_, fun some => ?_, warm.done, fun e found => still _ (warm.stored e found),
    fun j point => ?_,
    fun j e point => ?_⟩
  · obtain ⟨noValue, noFlight, all⟩ := warm.cold none
    refine ⟨noValue, noFlight, fun j => ?_⟩
    by_cases same : j = i
    · simpa [State.setPoint, same] using early none
    · simpa [State.setPoint, same] using all j
  · obtain ⟨j, was⟩ := warm.fetcher some
    exact ⟨j, still j was⟩
  · by_cases same : j = i
    · exact kept (by simpa [State.setPoint, same] using point)
    · exact warm.kept j (by simpa [State.setPoint, same] using point)
  · by_cases same : j = i
    · exact still _ (served e (by simpa [State.setPoint, same] using point))
    · exact still _ (warm.served j e (by simpa [State.setPoint, same] using point))

theorem Warm.store (warm : Warm key s) (point : s.points i = .execute) (response : List UInt8) :
    Warm key (s.setEntry key (some ⟨response, i⟩)) := by
  have fetching : (s.points i).fetches = true := by simp [point, Point.fetches]
  refine { warm with cold := fun none => ?_, done := ?_, stored := ?_, kept := ?_ }
  · have early := (warm.cold none).2.2 i
    simp [point, Point.early] at early
  · simp [State.setEntry]
  · intro e found
    obtain rfl : ⟨response, i⟩ = e := by simpa [State.setEntry] using found
    exact fetching
  · simp [State.setEntry]

theorem Warm.endFlight (warm : Warm key s) (stored : s.store key ≠ none) :
    Warm key (s.endFlight key) := by
  unfold State.endFlight
  split
  · refine { warm with
      cold := fun none => absurd (warm.cold none).1 stored,
      done := fun _ _ => stored }
  · exact warm

theorem Warm.first (warm : Warm key s) (i : RequestId) (inflight : GoString → Option FlightId) :
    Warm key ({ s with inflight := inflight, fresh := s.fresh + 1 }.setPoint i .execute) := by
  have still : ∀ j, (s.points j).fetches = true →
      (({ s with inflight := inflight, fresh := s.fresh + 1 }.setPoint i .execute).points
        j).fetches = true := by
    intro j was
    by_cases same : j = i
    · simp [State.setPoint, same, Point.fetches]
    · simpa [State.setPoint, same] using was
  refine ⟨fun none => absurd none (Nat.succ_ne_zero _),
    fun _ => ⟨i, by simp [State.setPoint, Point.fetches]⟩,
    warm.done, fun e found => still _ (warm.stored e found), fun j point => ?_, fun j e point => ?_⟩
  · by_cases same : j = i
    · simp [State.setPoint, same] at point
    · exact warm.kept j (by simpa [State.setPoint, same] using point)
  · by_cases same : j = i
    · simp [State.setPoint, same] at point
    · exact still _ (warm.served j e (by simpa [State.setPoint, same] using point))

inductive Fetching (key : GoString) (s : State) (a : Action) (t : State) : Prop where
  | same : (∀ j, (t.points j).fetches = (s.points j).fetches) → joinsFlight key s a = true →
      Fetching key s a t
  | more (i : RequestId) : (s.points i).fetches = false → (t.points i).fetches = true →
      (∀ j, j ≠ i → (t.points j).fetches = (s.points j).fetches) →
      (joinsFlight key s a = true ↔ s.fresh = 0) → Fetching key s a t

theorem fetching_same {u : State} (points : u.points = s.points)
    (same : p.fetches = (s.points i).fetches) (joins : joinsFlight key s a = true) :
      Fetching key s a (u.setPoint i p) := by
  refine .same (fun j => ?_) joins
  by_cases here : j = i
  · subst j
    simpa [State.setPoint] using same
  · simp [State.setPoint, here, points]

theorem fetching_more {u : State} (points : u.points = s.points)
    (was : (s.points i).fetches = false) (joins : joinsFlight key s a = true ↔ s.fresh = 0) :
      Fetching key s a (u.setPoint i .execute) := by
  refine .more i was (by simp [State.setPoint, Point.fetches]) (fun j other => ?_) joins
  simp [State.setPoint, other, points]

theorem Warm.started (warm : Warm key s) (point : s.points i = p) (late : p.early = false) :
    s.fresh ≠ 0 := by
  intro none
  rw [← point, (warm.cold none).2.2 i] at late
  cases late

theorem Warm.started_of_stored (warm : Warm key s) {e : Entry} (found : s.store key = some e) :
    s.fresh ≠ 0 := by
  intro none
  rw [(warm.cold none).1] at found
  cases found

theorem endFlight_fresh (s : State) (key : GoString) : (s.endFlight key).fresh = s.fresh := by
  unfold State.endFlight
  split <;> rfl

theorem Warm.setAnswers (warm : Warm key s) (b : Answers) : Warm key (s.setAnswers i b) :=
  { warm with }

theorem calm_read (own : (statement i).key = key) (warm : Warm key s)
    (taken : readStep statement s i .fresh = some t) :
      Warm key t ∧ Fetching key s (.read i .fresh) t := by
  unfold readStep at taken
  rw [own] at taken
  dsimp only at taken
  split at taken <;> cases taken <;> rename_i point found
  case h_1 =>
    constructor
    · exact warm.setPoint (by simp [point, Point.fetches]) (by simp [Point.early]) (by simp)
        (by simp)
    · exact fetching_same rfl (by simp [point, Point.fetches]) (by simp [joinsFlight, point])
  case h_2 e =>
    rw [if_neg (by simp)]
    constructor
    · refine (warm.setAnswers _).setPoint ?_
        (fun none => absurd none (warm.started_of_stored found)) (by simp) ?_
      · simp [State.setAnswers, point, Point.fetches]
      · rintro _ ⟨⟩
        exact warm.stored e found
    · exact fetching_same rfl (by simp [point, Point.fetches]) (by simp [joinsFlight, point])
  case h_3 =>
    constructor
    · exact warm.setPoint (by simp [point, Point.fetches]) (by simp [Point.early]) (by simp)
        (by simp)
    · exact fetching_same rfl (by simp [point, Point.fetches]) (by simp [joinsFlight, found])
  case h_4 e =>
    have started := warm.started_of_stored found
    constructor
    · refine (warm.setAnswers _).setPoint (by simp [Point.fetches])
        (fun none => absurd none started) (by simp) (by simp)
    · refine fetching_more rfl (by simp [point, Point.fetches]) ?_
      simp [joinsFlight, point, found, started]
  case h_5 => exact absurd found (warm.kept i (.inl point))
  case h_6 e =>
    have started : s.fresh ≠ 0 := warm.started point rfl
    constructor
    · refine (warm.setAnswers _).setPoint ?_ (fun none => absurd none started) (by simp) ?_
      · simp [State.setAnswers, point, Point.fetches]
      · rintro _ ⟨⟩
        exact warm.stored e found
    · exact fetching_same rfl (by simp [point, Point.fetches]) (by simp [joinsFlight, point])

theorem calm_loadOrStore (own : (statement i).key = key) (warm : Warm key s)
    (taken : loadOrStoreStep statement s i = some t) :
      Warm key t ∧ Fetching key s (.loadOrStore i) t := by
  unfold loadOrStoreStep at taken
  rw [own] at taken
  split_ifs at taken with point
  split at taken <;> cases taken <;> rename_i found
  · have started : s.fresh ≠ 0 := by
      intro none
      rw [(warm.cold none).2.1] at found
      cases found
    constructor
    · refine warm.setPoint ?_ (fun none => absurd none started) (by simp) (by simp)
      simp [point, Point.fetches]
    · exact fetching_same rfl (by simp [point, Point.fetches]) (by simp [joinsFlight, found])
  · constructor
    · exact warm.first i _
    · exact fetching_more rfl (by simp [point, Point.fetches]) (by simp [joinsFlight, found])

structure ColdKey (statement : RequestId → Statement) (key : GoString) : Prop where
  key : ∀ i, (statement i).key = key
  kept : ∀ i, 0 < ttlDuration (statement i).parsed.ttl

theorem calm_step (one : ColdKey statement key) (warm : Warm key s)
    (taken : checked (step statement) calm s a = some t) : Warm key t ∧ Fetching key s a t := by
  unfold checked at taken
  split_ifs at taken with quiet
  cases a with
  | timeout i | fail i | localInfile i | expire k => cases quiet
  | read i flag =>
    obtain rfl : flag = .fresh := by simpa [calm] using quiet
    exact calm_read (one.key i) warm taken
  | loadOrStore i => exact calm_loadOrStore (one.key i) warm taken
  | arrive i =>
    simp only [step] at taken
    split_ifs at taken with new
    cases taken
    constructor
    · have arrived : Warm key { s with arrived := i :: s.arrived } := { warm with }
      exact arrived.setPoint (by simp [new.1, Point.fetches]) (by simp [Point.early]) (by simp)
        (by simp)
    · exact fetching_same rfl (by simp [new.1, Point.fetches]) rfl
  | wake i =>
    simp only [step] at taken
    split at taken
    · rename_i f point
      split_ifs at taken with past
      cases taken
      have started : s.fresh ≠ 0 := warm.started point rfl
      constructor
      · refine warm.setPoint ?_ (fun none => absurd none started) (fun _ => warm.done f past)
          (by simp)
        simp [point, Point.fetches]
      · exact fetching_same rfl (by simp [point, Point.fetches]) rfl
    · cases taken
  | respond i response =>
    simp only [step, one.kept i, if_true, one.key i] at taken
    split_ifs at taken with point
    cases taken
    have started : s.fresh ≠ 0 := warm.started point rfl
    constructor
    · refine (warm.store point response).setPoint (by simp [Point.fetches])
        (fun none => absurd none started) ?_ (by simp)
      simp [State.setEntry]
    · exact fetching_same rfl (by simp [point, Point.fetches]) rfl
  | notify i =>
    simp only [step, one.key i] at taken
    split_ifs at taken with point
    cases taken
    have started : s.fresh ≠ 0 := warm.started point rfl
    obtain ⟨points, -⟩ := endFlight_rest s key
    constructor
    · refine (warm.endFlight (warm.kept i (.inr point))).setPoint (by simp [Point.fetches]) ?_
        (by simp) (by simp)
      intro none
      rw [endFlight_fresh] at none
      exact absurd none started
    · exact fetching_same points (by simp [point, Point.fetches]) rfl

def OneFetch (s : State) : Prop :=
  ∀ i j, (s.points i).fetches = true → (s.points j).fetches = true → i = j

theorem oneFetch_step (one : ColdKey statement key) (warm : Warm key s)
    (taken : checked (step statement) calm s a = some t) :
    OneFetch t ↔ OneFetch s ∧ joinsFlight key s a = true := by
  obtain ⟨-, ⟨same, joins⟩ | ⟨i, was, now, rest, joins⟩⟩ := calm_step one warm taken
  · simp only [OneFetch, same, joins, and_true]
  · rw [joins]
    constructor
    · intro single
      have others : ∀ j, (s.points j).fetches = false := by
        intro j
        by_cases here : j = i
        · rw [here, was]
        · by_contra fetching
          exact here (single j i (by rw [rest j here]; simpa using fetching) now)
      refine ⟨fun j k fetching => ?_, ?_⟩
      · simp [others j] at fetching
      · by_contra started
        obtain ⟨j, fetching⟩ := warm.fetcher (Nat.pos_of_ne_zero started)
        simp [others j] at fetching
    · rintro ⟨-, none⟩
      have only : ∀ j, (t.points j).fetches = true → j = i := by
        intro j fetching
        by_contra here
        rw [rest j here, (Point.of_early ((warm.cold none).2.2 j)).1] at fetching
        cases fetching
      exact fun j k first second => (only j first).trans (only k second).symm

theorem singleFlight_iff (warm : Warm key s) (present : ∀ i, s.points i ≠ .absent → i ∈ s.arrived) :
    SingleFlight s ↔ OneFetch s := by
  refine ⟨And.left, fun single => ⟨single, fun some ended => ?_⟩⟩
  obtain ⟨first, mem⟩ := List.exists_mem_of_ne_nil _ some
  have started : s.fresh ≠ 0 := by
    intro none
    have past := ended first mem
    rw [(Point.of_early ((warm.cold none).2.2 first)).2] at past
    cases past
  obtain ⟨i, fetching⟩ := warm.fetcher (Nat.pos_of_ne_zero started)
  have arrived : i ∈ s.arrived := by
    refine present i fun absent => ?_
    simp [absent, Point.fetches] at fetching
  refine ⟨i, arrived, ?_, fun j mem other => ?_⟩
  · have past := ended i arrived
    cases point : s.points i with
    | finished => rfl
    | execute | notify =>
      rw [point] at past
      cases past
    | _ =>
      rw [point] at fetching
      cases fetching
  · have past := ended j mem
    cases point : s.points j with
    | served e => exact ⟨e, rfl, single _ _ (warm.served j e point) fetching⟩
    | finished => exact absurd (single j i (by simp [point, Point.fetches]) fetching) other
    | _ => simp [point, Point.ended] at past

/-- One fetch answers all requests exactly when none of them finds the value, or the flight
gone, between its first lookup and its own flight. -/
theorem single_flight_iff (one : ColdKey statement key) (as : List Action)
    (run : replay (checked (step statement) calm) {} as = some s) :
    SingleFlight s ↔ replay (checked (checked (step statement) calm) (joinsFlight key)) {} as =
      some s := by
  have kept : ∀ s a t, Warm key s ∧ Provenance statement s →
    checked (step statement) calm s a = some t →
      Warm key t ∧ Provenance statement t := by
    intro s a t ⟨warm, provenance⟩ taken
    refine ⟨(calm_step one warm taken).1, ?_⟩
    unfold checked at taken
    split_ifs at taken
    exact provenance_step provenance taken
  have start : Warm key {} ∧ Provenance statement {} := ⟨warm_start key, provenance_start⟩
  obtain ⟨warm, provenance⟩ := replay_invariant kept start as run
  rw [singleFlight_iff warm provenance.present,
    replay_checked_iff_of (P := OneFetch) kept (fun s a t known => oneFetch_step one known.1) start
      as run]
  refine ⟨And.right, fun passed => ⟨fun i j fetching => ?_, passed⟩⟩
  cases fetching

def coldText : GoString := (oneDatabase 0).key

theorem oneDatabase_same (i : RequestId) : oneDatabase i = oneDatabase 0 := rfl

theorem oneDatabase_cold : ColdKey oneDatabase coldText where
  key i := by rw [oneDatabase_same i, coldText]
  kept i := by
    rw [oneDatabase_same i]
    decide +kernel

/-- Request 2 waits for the flight of request 0, and request 1 comes later. -/
theorem single_flight_iff_sharing :
    ∃ s : State, s.points 2 = .served ⟨[1], 0⟩ ∧ s.points 1 = .served ⟨[1], 0⟩ ∧
      SingleFlight s := by
  have passed :
    (replay (checked (checked (step oneDatabase) calm) (joinsFlight coldText)) {} sharing).map
      (fun s => decide (s.points 2 = .served ⟨[1], 0⟩) && decide (s.points 1 = .served ⟨[1], 0⟩)) =
        some true := by
    decide +kernel
  obtain ⟨s, run, seen⟩ := Option.map_eq_some_iff.mp passed
  obtain ⟨second, first⟩ : s.points 2 = .served ⟨[1], 0⟩ ∧
    s.points 1 = .served ⟨[1], 0⟩ := by simpa using seen
  exact ⟨s, second, first,
    (single_flight_iff oneDatabase_cold sharing (replay_of_checked sharing run)).mpr run⟩

/-- Request 1 fetches and stores after the first lookup of request 0. -/
def overtaken : List Action :=
  [.arrive 1, .read 1 .fresh, .read 1 .fresh, .loadOrStore 1, .respond 1 [1], .notify 1]

/-- Request 0 finds the value in `GetOrWait` and fetches all the same; or it finds the flight
gone and starts another one. -/
theorem cold_key_fetched_twice :
    (∃ s, replay (checked (step oneDatabase) calm) {}
        ([.arrive 0, .read 0 .fresh] ++ overtaken ++ [.read 0 .fresh, .respond 0 [2], .notify 0]) =
          some s ∧
      ¬ SingleFlight s) ∧
    ∃ s, replay (checked (step oneDatabase) calm) {}
        ([.arrive 0, .read 0 .fresh, .read 0 .fresh] ++ overtaken ++
          [.loadOrStore 0, .respond 0 [2], .notify 0]) = some s ∧
      ¬ SingleFlight s := by
  have twice : ∀ as, (replay (checked (step oneDatabase) calm) {} as).map
      (fun s => decide (s.points 0 = .finished) && decide (s.points 1 = .finished)) = some true →
      ∃ s, replay (checked (step oneDatabase) calm) {} as = some s ∧ ¬ SingleFlight s := by
    intro as passed
    obtain ⟨s, run, seen⟩ := Option.map_eq_some_iff.mp passed
    obtain ⟨first, second⟩ : s.points 0 = .finished ∧ s.points 1 = .finished := by simpa using seen
    refine ⟨s, run, fun single => ?_⟩
    have same := single.1 0 1 (by simp [first, Point.fetches]) (by simp [second, Point.fetches])
    cases same
  exact ⟨twice _ (by decide +kernel), twice _ (by decide +kernel)⟩

end TQDBProxy.QueryCache
