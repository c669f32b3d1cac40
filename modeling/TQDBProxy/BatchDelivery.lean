import Mathlib.Logic.Relation
import TQDBProxy.WriteBatchPending

/-! Batched writes of MariaDB connections and the executors that answer them. A
connection holds its mutex from before `Enqueue` until its response is written; an
executor sends each result and then calls back, which takes the mutex of the connection
that the request came from.

The waits form no cycle: the next write of a connection is enqueued after the executor
of the previous one took its group, so along the waits groups were taken later and later. -/

namespace TQDBProxy.BatchDelivery

open GuardedRuns WriteBatchManager

theorem acyclic_of_rank {α : Type} {R : α → α → Prop} (rank : α → Nat)
    (up : ∀ x y z, R x y → R y z → rank x < rank y) (x : α) : ¬ Relation.TransGen R x x := by
  have grows : ∀ y, Relation.TransGen R x y → ∀ z, R y z → rank x < rank y := by
    intro y path
    induction path with
    | single edge => exact fun z next => up x _ z edge next
    | tail _ edge ih => exact fun z next => Nat.lt_trans (ih _ edge) (up _ _ z edge next)
  intro cycle
  obtain ⟨y, first, -⟩ := Relation.TransGen.head'_iff.mp cycle
  exact Nat.lt_irrefl _ (grows x cycle y first)

abbrev ConnId := Nat

/-- Program points of a connection: between two statements, in one that is not enqueued yet,
and from `Enqueue` until the response is written. -/
inductive ConnPoint where
  | outside
  | inside
  | calling (q : CallId)
  deriving DecidableEq

inductive Callback where
  | none
  | wants (q : CallId)
  | holds (q : CallId)
  deriving DecidableEq

def Callback.request : Callback → Option CallId
  | .none => Option.none
  | .wants q | .holds q => some q

theorem Callback.ne_none_of_request {callback : Callback} {q : CallId}
    (waits : callback.request = some q) :
    callback ≠ .none := by
  rintro rfl
  cases waits

inductive Holder where
  | conn
  | run (r : RunId)
  deriving DecidableEq

/-- `clock`, `issuedAt` and `takenAt` are histories: when each write was issued and when
each executor took its group. -/
structure Delivery (K : Type) where
  manager : State K
  points : ConnId → ConnPoint
  mutex : ConnId → Option Holder
  callback : RunId → Callback
  clock : Nat
  issuedAt : CallId → Nat
  takenAt : RunId → Nat

def start {K : Type} (k : K) : Delivery K where
  manager := init k
  points := fun _ => .outside
  mutex := fun _ => none
  callback := fun _ => .none
  clock := 0
  issuedAt := fun _ => 0
  takenAt := fun _ => 0

inductive DeliveryAction where
  | lock (c : ConnId)
  | issue (q : CallId)
  | manager (a : Action)
  | run (a : Action) (r : RunId) (callsBack : Bool)
  | respond (c : ConnId)
  | lockCallback (r : RunId)
  | unlockCallback (r : RunId)
  deriving DecidableEq

variable {K : Type}

def shared : Action → Bool
  | .call _ | .receive _ | .fire _ => true
  | _ => false

def owned (r : RunId) : Action → Bool
  | .run r' | .execute r' _ => r = r'
  | _ => false

/-- What an executor does beside its step: it has taken its group, or it has sent a result
and goes on to the callback. -/
def Delivery.afterRun (s : Delivery K) (r : RunId) (callsBack : Bool) : Delivery K :=
  match s.manager.runs r with
  | some ⟨_, .take⟩ =>
    { s with takenAt := Function.update s.takenAt r s.clock, clock := s.clock + 1 }
  | some ⟨_, .deliver ((q, _) :: _)⟩ =>
    { s with callback := Function.update s.callback r (if callsBack then .wants q else .none) }
  | _ => s

def step [DecidableEq K] (maxBatchSize : Nat) (key : CallId → K) (conn : CallId → ConnId)
    (s : Delivery K) : DeliveryAction → Option (Delivery K)
  | .lock c =>
    if s.points c = .outside ∧ s.mutex c = none then
      some { s with
        points :=
          Function.update s.points c .inside, mutex := Function.update s.mutex c (some .conn) }
    else none
  | .issue q =>
    if s.points (conn q) = .inside then
      (WriteBatchManager.step maxBatchSize key s.manager (.invoke q)).map fun m =>
        { s with
          manager := m
          points := Function.update s.points (conn q) (.calling q)
          issuedAt := Function.update s.issuedAt q s.clock
          clock := s.clock + 1 }
    else none
  | .manager a =>
    if shared a then
      (WriteBatchManager.step maxBatchSize key s.manager a).map fun m => { s with manager := m }
    else none
  | .run a r callsBack =>
    if owned r a ∧ s.callback r = .none then
      (WriteBatchManager.step maxBatchSize key s.manager a).map fun m =>
        { s.afterRun r callsBack with manager := m }
    else none
  | .respond c =>
    match s.points c with
    | .calling q =>
      match s.manager.calls q with
      | .returned _ =>
        some { s with
          points := Function.update s.points c .outside, mutex := Function.update s.mutex c none }
      | _ => none
    | _ => none
  | .lockCallback r =>
    match s.callback r with
    | .wants q =>
      if s.mutex (conn q) = none then
        some { s with
          callback := Function.update s.callback r (.holds q)
          mutex := Function.update s.mutex (conn q) (some (.run r)) }
      else none
    | _ => none
  | .unlockCallback r =>
    match s.callback r with
    | .holds q =>
      some { s with
        callback :=
          Function.update s.callback r .none, mutex := Function.update s.mutex (conn q) none }
    | _ => none

inductive Party where
  | conn (c : ConnId)
  | run (r : RunId)
  deriving DecidableEq

/-- Who waits for whom: for a mutex of a connection or of a group, for a result, and for
room in the channel of a result. -/
inductive WaitsFor (conn : CallId → ConnId) (s : Delivery K) : Party → Party → Prop where
  | callback (r : RunId) (q : CallId) : s.callback r = .wants q → s.mutex (conn q) = some .conn →
      WaitsFor conn s (.run r) (.conn (conn q))
  | otherCallback (r r' : RunId) (q : CallId) : s.callback r = .wants q →
      s.mutex (conn q) = some (.run r') → WaitsFor conn s (.run r) (.run r')
  | entry (c : ConnId) (r : RunId) : s.points c = .outside → s.mutex c = some (.run r) →
      WaitsFor conn s (.conn c) (.run r)
  | result (c : ConnId) (q : CallId) (r : RunId) (g : GroupId) (p : RunPoint) :
      s.points c = .calling q →
      s.manager.calls q = .wait → s.manager.runs r = some ⟨g, p⟩ → q ∈ p.slice →
      WaitsFor conn s (.conn c) (.run r)
  | pending (c : ConnId) (q : CallId) (r : RunId) (g : GroupId) (p : RunPoint) :
      s.points c = .calling q →
      s.manager.calls q = .wait → q ∈ (s.manager.heap g).held → s.manager.runs r = some ⟨g, p⟩ →
      p.willRead = true → WaitsFor conn s (.conn c) (.run r)
  | group (c : ConnId) (q q' : CallId) (g : GroupId) : s.points c = .calling q →
      s.manager.calls q = .lockGroup g → s.manager.calls q' = .deleteGroup g →
      WaitsFor conn s (.conn c) (.conn (conn q'))
  | runGroup (r : RunId) (q' : CallId) (g : GroupId) : s.manager.runs r = some ⟨g, .take⟩ →
      s.manager.calls q' = .deleteGroup g → WaitsFor conn s (.run r) (.conn (conn q'))
  | channel (r : RunId) (g : GroupId) (q : CallId) (result : WriteResult)
      (rest : List (CallId × WriteResult)) :
      s.callback r = .none → s.manager.runs r = some ⟨g, .deliver ((q, result) :: rest)⟩ →
      s.manager.channel q ≠ none → WaitsFor conn s (.run r) (.conn (conn q))

variable {m m' : State K} {a : Action} {k : K} {s t : Delivery K}

/-! ### The manager -/

def uninterrupted (_ : State K) (a : Action) : Prop := a ≠ .close ∧ ∀ c, a ≠ .cancel c

theorem uninterrupted_of_shared (part : shared a = true) : uninterrupted m a := by
  cases a <;> simp [shared, uninterrupted] at part ⊢

theorem ne_invoke_of_owned {r : RunId} (part : owned r a = true) (c : CallId) : a ≠ .invoke c := by
  rintro rfl
  simp [owned] at part

theorem uninterrupted_of_owned {r : RunId} (part : owned r a = true) : uninterrupted m a := by
  cases a <;> simp [owned, uninterrupted] at part ⊢

/-- What a run has still to answer it has taken, and who has returned was answered. -/
structure Settled (m : State K) : Prop where
  slice : ∀ r g p, m.runs r = some ⟨g, p⟩ → ∀ c ∈ p.slice, c ∈ m.taken r
  returned : ∀ c result, m.calls c = .returned result → m.sent c ≠ []

theorem settled_init (k : K) : Settled (init k) := by
  constructor <;> simp [init]

theorem Settled.setCall (settled : Settled m) (c : CallId) (p : CallPoint)
    (answered : ∀ result, p = .returned result → m.sent c ≠ []) : Settled (m.setCall c p) :=
  { settled with
    returned := by
      intro d result point
      by_cases same : d = c
      · subst d
        exact answered result (by simpa [State.setCall] using point)
      · exact settled.returned d result (by simpa [State.setCall, same] using point) }

theorem Settled.setRun (settled : Settled m) (r : RunId) (g : GroupId) (p : RunPoint)
    (taken : ∀ c ∈ p.slice, c ∈ m.taken r) : Settled (m.setRun r g p) :=
  { settled with
    slice := by
      intro r' g' p' running c mem
      by_cases same : r' = r
      · subst r'
        obtain ⟨-, rfl⟩ : g = g' ∧ p = p' := by simpa [State.setRun] using running
        exact taken c mem
      · exact settled.slice r' g' p' (by simpa [State.setRun, same] using running) c mem }

theorem Settled.send (settled : Settled m) (c : CallId) (result : WriteResult) :
    Settled (m.send c result) :=
  { settled with
    returned := by
      intro d answer point
      by_cases same : d = c
      · simp [State.send, same]
      · simpa [State.send, same] using settled.returned d answer point }

theorem channel_sent {reader : CallId → Option RunId} (custody : Custody reader m) (c : CallId)
    (result : WriteResult) (full : m.channel c = some result) : m.sent c ≠ [] :=
  List.ne_nil_of_mem (custody.channel c result full)

section
variable [DecidableEq K] {maxBatchSize : Nat} {key : CallId → K} {conn : CallId → ConnId}

theorem settled_step (opened : Opened m) (settled : Settled m)
    (answered : ∀ c result, m.channel c = some result → m.sent c ≠ []) (stays : ∀ c, a ≠ .cancel c)
    (tr : Transition maxBatchSize key m a m') : Settled m' := by
  cases tr with
  | invoke c | reject c | proceed c | missed c | retry c | found c =>
    exact settled.setCall c _ (by simp)
  | created c | first c | fill c | join c | delete c | stop c =>
    refine Settled.setCall ?_ c _ (by simp)
    exact { settled with }
  | spawn c g point =>
    exact (settled.setRun (.full c) g .loadClosed (by simp [RunPoint.slice])).setCall c _ (by simp)
  | receive c result waiting full =>
    have emptied : Settled { m with channel := Function.update m.channel c none } :=
      { settled with }
    exact emptied.setCall c _ fun _ _ => answered c result full
  | cancel c => exact absurd rfl (stays c)
  | close => exact { settled with }
  | fire g armed =>
    have fired : Settled (m.setGroup g { m.heap g with timer := .fired }) := { settled with }
    exact fired.setRun (.timer g) g .loadClosed (by simp [RunPoint.slice])
  | enter r g running => exact settled.setRun r g _ (by split <;> simp [RunPoint.slice])
  | readClosed r g running => exact absurd rfl (opened.2 r g _ running).1
  | answered r g running | delivered r g running =>
    exact settled.setRun r g _ (by simp [RunPoint.slice])
  | answer r g c rest running | deliver r g c result rest running =>
    refine (settled.send c _).setRun r g _ fun d mem => ?_
    exact settled.slice r g _ running d (List.mem_cons_of_mem _ mem)
  | take r g running =>
    -- the slice of another run is in what that run has taken, which stays
    constructor
    · intro r' g' p running' c mem
      by_cases same : r' = r
      · subst r'
        obtain ⟨-, rfl⟩ : g = g' ∧ _ = p := by simpa [State.setRun] using running'
        simpa [State.setRun, State.setGroup, RunPoint.slice] using mem
      · have taken :=
          settled.slice r' g' p (by simpa [State.setRun, State.setGroup, same] using running') c mem
        simpa [State.setRun, State.setGroup, same] using taken
    · exact settled.returned
  | compareAndDelete r g requests running =>
    have kept : ∀ c ∈ (if requests = [] then RunPoint.done else .execute requests).slice,
        c ∈ m.taken r := by
      intro c mem
      refine settled.slice r g _ running c ?_
      split at mem
      · simp [RunPoint.slice] at mem
      · exact mem
    split
    · refine Settled.setRun ?_ r g _ kept
      exact { settled with }
    · exact settled.setRun r g _ kept
  | execute r g requests results running fits =>
    have done : Settled { m with executed := m.executed ++ requests } := { settled with }
    refine done.setRun r g _ fun c mem => ?_
    refine settled.slice r g _ running c ?_
    rw [RunPoint.slice, List.map_fst_zip (Nat.le_of_eq fits.symm)] at mem
    exact mem

structure Sound (m : State K) : Prop where
  shape : Shape m
  settled : Settled m
  takenQueued : ∀ r, ∀ c ∈ m.taken r, (m.calls c).queued = true
  heldQueued : ∀ g, ∀ c ∈ (m.heap g).held, (m.calls c).queued = true
  heldUnsent : ∀ g, ∀ c ∈ (m.heap g).held, m.sent c = []
  sliceUnsent : ∀ r g p, m.runs r = some ⟨g, p⟩ → ∀ c ∈ p.slice, m.sent c = []
  outsideUnsent : ∀ c, (m.calls c).queued = false → m.sent c = []
  channel : ∀ c result, m.channel c = some result → m.sent c ≠ []

theorem reach_neverClose
    (reach : Reach (WriteBatchManager.step maxBatchSize key) uninterrupted (init k) m) :
    Reach (WriteBatchManager.step maxBatchSize key) neverClose (init k) m :=
  reach.weaken (P := fun _ => True) trivial (fun _ _ _ _ _ _ => trivial) fun _ _ _ calm => calm.1

theorem reach_open_custody
    (reach : Reach (WriteBatchManager.step maxBatchSize key) neverClose (init k) m) :
    ∃ reader, Custody reader m :=
  reach_custody (reach_open reach fun _ _ opened _ g _ _ _ _ _ => opened.not_answered g)

theorem reach_settled
    (reach : Reach (WriteBatchManager.step maxBatchSize key) uninterrupted (init k) m) :
    Settled m := by
  induction reach with
  | start => exact settled_init k
  | next before calm taken ih =>
    obtain ⟨reader, custody⟩ := reach_open_custody (reach_neverClose before)
    exact settled_step (reach_opened (reach_neverClose before)) ih (channel_sent custody) calm.2
      (step_transition taken)

theorem reach_sound
    (reach : Reach (WriteBatchManager.step maxBatchSize key) uninterrupted (init k) m) :
    Sound m := by
  have unclosed := reach_neverClose reach
  have opened := reach_opened unclosed
  obtain ⟨reader, custody⟩ := reach_open_custody unclosed
  obtain ⟨place, located⟩ := reach_located reach
  exact
    { shape := reach_shape reach
      settled := reach_settled reach
      takenQueued := fun r c mem => located.queued_of_taken mem
      heldQueued := fun g c mem => located.queued mem
      heldUnsent := by
        intro g c mem
        apply custody.unread
        by_contra read
        obtain ⟨r, read⟩ := Option.ne_none_iff_exists'.mp read
        obtain ⟨p, running, closed⟩ := custody.held g c mem r read
        exact opened.not_answered g ⟨r, p, running, closed⟩
      sliceUnsent := fun r g p running c mem => (custody.slice r g p running c mem).2
      outsideUnsent := fun c out => custody.unread c (custody.outside c out)
      channel := channel_sent custody }

structure Carries (m m' : State K) : Prop where
  absent : ∀ c, m.calls c = .absent → m'.calls c = .absent
  returned : ∀ c result, m.calls c = .returned result → m'.calls c = .returned result
  sent : ∀ c, m.sent c ≠ [] → m'.sent c ≠ []

theorem sent_step (tr : Transition maxBatchSize key m a m') {c : CallId} (sent : m.sent c ≠ []) :
    m'.sent c ≠ [] := by
  cases tr with
  | answer r g d | deliver r g d =>
    by_cases same : c = d
    · simp [State.send, State.setRun, same]
    · simpa [State.send, State.setRun, same] using sent
  | compareAndDelete r g requests running => split <;> exact sent
  | _ => exact sent

theorem returned_step (tr : Transition maxBatchSize key m a m') {c : CallId} {result : WriteResult}
    (returned : m.calls c = .returned result) : m'.calls c = .returned result := by
  have move {d : CallId} {p : CallPoint} (point : m.calls d = p) (present : p ≠ .returned result) :
      c ≠ d := by
    rintro rfl
    exact present (point.symm.trans returned)
  cases tr with
  | found d g point =>
    have other : c ≠ d := by
      rcases point with point | point <;> exact move point (by simp)
    simpa [State.setCall, other] using returned
  | compareAndDelete r g requests running =>
    split <;> simpa [State.setKey, State.setRun] using returned
  | invoke d point | reject d point | proceed d point | missed d point | created d point
  | retry d _ point
  | first d _ point | fill d _ _ point | join d _ _ point | delete d _ point | stop d _ point
  | spawn d _ point | receive d _ point | cancel d point =>
    simpa [State.setCall, State.setGroup, State.setKey, State.setRun, move point (by simp)]
      using returned
  | _ => exact returned

theorem carries_step (tr : Transition maxBatchSize key m a m') (entered : ∀ c, a ≠ .invoke c) :
    Carries m m' where
  absent c absent := absent_step absent (entered c) tr
  returned _ _ returned := returned_step tr returned
  sent _ sent := sent_step tr sent

theorem runs_step (shape : Shape m) (tr : Transition maxBatchSize key m a m') {r : RunId}
    (there : m.runs r ≠ none) (other : owned r a = false) : m'.runs r = m.runs r := by
  cases tr with
  | spawn c g point =>
    have ne : r ≠ .full c := by
      rintro rfl
      exact there (shape.noFull (by simp [point, CallPoint.settled]))
    simp [State.setCall, State.setRun, ne]
  | fire g armed =>
    have ne : r ≠ .timer g := by
      rintro rfl
      exact there (shape.noTimer (by simp [armed]))
    simp [State.setGroup, State.setRun, ne]
  | compareAndDelete r' g requests running =>
    have ne : r ≠ r' := by simpa [owned] using other
    split <;> simp [State.setKey, State.setRun, ne]
  | enter r' | readClosed r' | answered r' | answer r' | take r' | delivered r' | deliver r'
  | execute r' =>
    have ne : r ≠ r' := by simpa [owned] using other
    simp [State.send, State.setGroup, State.setRun, ne]
  | _ => rfl

theorem taken_step (tr : Transition maxBatchSize key m a m')
    (idle : ∀ r g, a = .run r → m.runs r ≠ some ⟨g, .take⟩) : m'.taken = m.taken := by
  cases tr with
  | take r g running => exact absurd running (idle r g rfl)
  | compareAndDelete r g requests running => split <;> rfl
  | _ => rfl

theorem take_step (tr : Transition maxBatchSize key m a m') {r : RunId} {g : GroupId}
    (own : owned r a = true) (running : m.runs r = some ⟨g, .take⟩) :
    m'.taken = Function.update m.taken r (m.heap g).held := by
  cases tr with
  | take r' g' running' =>
    obtain rfl : r = r' := by simpa [owned] using own
    obtain rfl : g = g' := by simpa [running] using running'
    rfl
  | enter r' _ running' | readClosed r' _ running' | answered r' _ running'
  | answer r' _ _ _ running'
  | compareAndDelete r' _ _ running' | delivered r' _ running' | deliver r' _ _ _ _ running'
  | execute r' _ _ _ running' =>
    obtain rfl : r = r' := by simpa [owned] using own
    simp [running] at running'
  | _ => simp [owned] at own

theorem deliver_step (tr : Transition maxBatchSize key m a m') {r : RunId} {g : GroupId}
    {q : CallId} {result : WriteResult} {rest : List (CallId × WriteResult)}
    (own : owned r a = true) (running : m.runs r = some ⟨g, .deliver ((q, result) :: rest)⟩) :
    m'.runs r = some ⟨g, .deliver rest⟩ ∧ m'.sent q ≠ [] := by
  cases tr with
  | deliver r' g' q' result' rest' running' =>
    obtain rfl : r = r' := by simpa [owned] using own
    obtain ⟨rfl, ⟨rfl, rfl⟩, rfl⟩ : g = g' ∧ (q = q' ∧ result = result') ∧ rest = rest' := by
      simpa [running] using running'
    simp [State.setRun, State.send]
  | enter r' _ running' | readClosed r' _ running' | answered r' _ running'
  | answer r' _ _ _ running'
  | take r' _ running' | compareAndDelete r' _ _ running' | delivered r' _ running'
  | execute r' _ _ _ running' =>
    obtain rfl : r = r' := by simpa [owned] using own
    simp [running] at running'
  | _ => simp [owned] at own

/-! ### Connections and executors -/

inductive Move (maxBatchSize : Nat) (key : CallId → K) (conn : CallId → ConnId) (s : Delivery K) :
    DeliveryAction → Delivery K → Prop where
  | lock (c : ConnId) : s.points c = .outside → s.mutex c = none →
      Move maxBatchSize key conn s (.lock c) { s with
        points :=
          Function.update s.points c .inside, mutex := Function.update s.mutex c (some .conn) }
  | issue (q : CallId) (m : State K) : s.points (conn q) = .inside →
      WriteBatchManager.step maxBatchSize key s.manager (.invoke q) = some m →
      Move maxBatchSize key conn s (.issue q) { s with
        manager := m
        points := Function.update s.points (conn q) (.calling q)
        issuedAt := Function.update s.issuedAt q s.clock
        clock := s.clock + 1 }
  | manager (a : Action) (m : State K) : shared a = true →
      WriteBatchManager.step maxBatchSize key s.manager a = some m →
      Move maxBatchSize key conn s (.manager a) { s with manager := m }
  | take (a : Action) (r : RunId) (callsBack : Bool) (g : GroupId) (m : State K) :
      owned r a = true →
      s.callback r = .none → s.manager.runs r = some ⟨g, .take⟩ →
      WriteBatchManager.step maxBatchSize key s.manager a = some m →
      Move maxBatchSize key conn s (.run a r callsBack) { s with
        manager := m, takenAt := Function.update s.takenAt r s.clock, clock := s.clock + 1 }
  | deliver (a : Action) (r : RunId) (callsBack : Bool) (g : GroupId) (q : CallId)
      (result : WriteResult)
      (rest : List (CallId × WriteResult)) (m : State K) : owned r a = true → s.callback r = .none →
      s.manager.runs r = some ⟨g, .deliver ((q, result) :: rest)⟩ →
      WriteBatchManager.step maxBatchSize key s.manager a = some m →
      Move maxBatchSize key conn s (.run a r callsBack) { s with
        manager := m
        callback := Function.update s.callback r (if callsBack then .wants q else .none) }
  | run (a : Action) (r : RunId) (callsBack : Bool) (m : State K) :
      owned r a = true → s.callback r = .none →
      (∀ g, s.manager.runs r ≠ some ⟨g, .take⟩) →
      WriteBatchManager.step maxBatchSize key s.manager a = some m →
      Move maxBatchSize key conn s (.run a r callsBack) { s with manager := m }
  | respond (c : ConnId) (q : CallId) (result : WriteResult) : s.points c = .calling q →
      s.manager.calls q = .returned result →
      Move maxBatchSize key conn s (.respond c) { s with
        points := Function.update s.points c .outside, mutex := Function.update s.mutex c none }
  | lockCallback (r : RunId) (q : CallId) : s.callback r = .wants q → s.mutex (conn q) = none →
      Move maxBatchSize key conn s (.lockCallback r) { s with
        callback := Function.update s.callback r (.holds q)
        mutex := Function.update s.mutex (conn q) (some (.run r)) }
  | unlockCallback (r : RunId) (q : CallId) : s.callback r = .holds q →
      Move maxBatchSize key conn s (.unlockCallback r) { s with
        callback :=
          Function.update s.callback r .none, mutex := Function.update s.mutex (conn q) none }

theorem step_move {a : DeliveryAction} (taken : step maxBatchSize key conn s a = some t) :
    Move maxBatchSize key conn s a t := by
  cases a with
  | lock c =>
    simp only [step] at taken
    split at taken
    · rename_i enters
      obtain rfl := Option.some.inj taken
      exact .lock c enters.1 enters.2
    · cases taken
  | issue q =>
    simp only [step] at taken
    split at taken
    · obtain ⟨m, moved, rfl⟩ := Option.map_eq_some_iff.mp taken
      exact .issue q m ‹_› moved
    · cases taken
  | manager a =>
    simp only [step] at taken
    split at taken
    · obtain ⟨m, moved, rfl⟩ := Option.map_eq_some_iff.mp taken
      exact .manager a m ‹_› moved
    · cases taken
  | run a r callsBack =>
    simp only [step] at taken
    split at taken
    · rename_i ready
      obtain ⟨m, moved, rfl⟩ := Option.map_eq_some_iff.mp taken
      unfold Delivery.afterRun
      split
      · exact .take a r callsBack _ m ready.1 ready.2 ‹_› moved
      · exact .deliver a r callsBack _ _ _ _ m ready.1 ready.2 ‹_› moved
      · exact .run a r callsBack m ready.1 ready.2 ‹_› moved
    · cases taken
  | respond c =>
    simp only [step] at taken
    split at taken
    · split at taken
      · obtain rfl := Option.some.inj taken
        exact .respond c _ _ ‹_› ‹_›
      · cases taken
    · cases taken
  | lockCallback r =>
    simp only [step] at taken
    split at taken
    · split at taken
      · obtain rfl := Option.some.inj taken
        exact .lockCallback r _ ‹_› ‹_›
      · cases taken
    · cases taken
  | unlockCallback r =>
    simp only [step] at taken
    split at taken
    · obtain rfl := Option.some.inj taken
      exact .unlockCallback r _ ‹_›
    · cases taken

theorem reach_manager (reach : Reach (step maxBatchSize key conn) free (start k) s) :
    Reach (WriteBatchManager.step maxBatchSize key) uninterrupted (init k) s.manager := by
  induction reach with
  | start => exact .start
  | next _ _ taken ih =>
    cases step_move taken with
    | lock | respond | lockCallback | unlockCallback => exact ih
    | issue q m inside moved => exact ih.next (by simp [uninterrupted]) moved
    | manager a m part moved => exact ih.next (uninterrupted_of_shared part) moved
    | take a r _ g m own _ _ moved | deliver a r _ g _ _ _ m own _ _ moved
    | run a r _ m own _ _ moved =>
      exact ih.next (uninterrupted_of_owned own) moved

end

/-- A connection inside a call issued it after every group that holds an earlier write of
the same connection was taken. -/
structure Ordered (conn : CallId → ConnId) (s : Delivery K) : Prop where
  busy : ∀ q, s.manager.calls q ≠ .absent → s.points (conn q) = .calling q ∨
    ∃ result, s.manager.calls q = .returned result
  calling : ∀ c q, s.points c = .calling q → conn q = c
  entered : ∀ c, s.mutex c = some .conn → s.points c ≠ .outside
  holding : ∀ c r, s.mutex c = some (.run r) → ∃ q, conn q = c ∧ s.callback r = .holds q
  delivered : ∀ r q, (s.callback r).request = some q →
    q ∈ s.manager.taken r ∧ s.manager.sent q ≠ [] ∧
      ∃ g results, s.manager.runs r = some ⟨g, .deliver results⟩
  issued : ∀ q, s.manager.calls q ≠ .absent → s.issuedAt q < s.clock
  stamped : ∀ r, ∀ q ∈ s.manager.taken r, s.issuedAt q < s.takenAt r ∧ s.takenAt r < s.clock
  later : ∀ r, ∀ q₀ ∈ s.manager.taken r, ∀ q, s.points (conn q) = .calling q → conn q₀ = conn q →
    q₀ ≠ q →
    s.takenAt r < s.issuedAt q

variable {conn : CallId → ConnId}

theorem ordered_start (k : K) : Ordered conn (start k) := by
  constructor <;> simp [start, init, Callback.request]

theorem Ordered.manager (ordered : Ordered conn s) (carries : Carries s.manager m)
    (taken : m.taken = s.manager.taken)
    (runs : ∀ r, s.manager.runs r ≠ none → s.callback r ≠ .none → m.runs r = s.manager.runs r) :
    Ordered conn { s with manager := m } := by
  have present : ∀ q, m.calls q ≠ .absent → s.manager.calls q ≠ .absent :=
    fun q there absent => there (carries.absent q absent)
  refine { ordered with busy := ?_, delivered := ?_, issued := ?_, stamped := ?_, later := ?_ }
  · intro q there
    obtain inside | ⟨result, returned⟩ := ordered.busy q (present q there)
    · exact .inl inside
    · exact .inr ⟨result, carries.returned q result returned⟩
  · intro r q waits
    obtain ⟨mem, sent, g, results, running⟩ := ordered.delivered r q waits
    have kept := runs r (by simp [running]) (Callback.ne_none_of_request waits)
    exact ⟨taken ▸ mem, carries.sent q sent, g, results, kept.trans running⟩
  · exact fun q there => ordered.issued q (present q there)
  · intro r q mem
    exact ordered.stamped r q (taken ▸ mem)
  · intro r q₀ mem
    exact ordered.later r q₀ (taken ▸ mem)

theorem Ordered.wants (ordered : Ordered conn s) {r : RunId} {q : CallId} {g : GroupId}
    {results : List (CallId × WriteResult)} (idle : s.callback r = .none)
    (mem : q ∈ s.manager.taken r) (sent : s.manager.sent q ≠ [])
    (running : s.manager.runs r = some ⟨g, .deliver results⟩) :
    Ordered conn { s with callback := Function.update s.callback r (.wants q) } := by
  refine { ordered with holding := ?_, delivered := ?_ }
  · intro c r' held
    obtain ⟨q', at_, holds⟩ := ordered.holding c r' held
    have other : r' ≠ r := by
      rintro rfl
      simp [idle] at holds
    exact ⟨q', at_, by simpa [other] using holds⟩
  · intro r' q' waits
    by_cases same : r' = r
    · subst r'
      obtain rfl : q = q' := by simpa [Callback.request] using waits
      exact ⟨mem, sent, g, results, running⟩
    · exact ordered.delivered r' q' (by simpa [same] using waits)

theorem Ordered.take (ordered : Ordered conn s) {r : RunId} {held : List CallId}
    (idle : s.callback r = .none) (inside : ∀ q ∈ held, s.manager.calls q ≠ .absent ∧
      s.points (conn q) = .calling q) :
    Ordered conn { s with
      manager := { s.manager with taken := Function.update s.manager.taken r held }
      takenAt := Function.update s.takenAt r s.clock
      clock := s.clock + 1 } := by
  refine { ordered with delivered := ?_, issued := ?_, stamped := ?_, later := ?_ }
  · intro r' q waits
    have other : r' ≠ r := by
      rintro rfl
      exact Callback.ne_none_of_request waits idle
    simpa [other] using ordered.delivered r' q waits
  · intro q there
    exact Nat.lt_succ_of_lt (ordered.issued q there)
  · intro r' q mem
    by_cases same : r' = r
    · subst r'
      have mem : q ∈ held := by simpa using mem
      simpa using ordered.issued q (inside q mem).1
    · have stamps := ordered.stamped r' q (by simpa [same] using mem)
      simp only [Function.update_of_ne same]
      exact ⟨stamps.1, Nat.lt_succ_of_lt stamps.2⟩
  · intro r' q₀ mem q calls sameConn ne
    by_cases same : r' = r
    · subst r'
      have calls₀ := (inside q₀ (by simpa using mem)).2
      rw [sameConn, calls] at calls₀
      exact absurd (ConnPoint.calling.inj calls₀).symm ne
    · simpa [same] using ordered.later r' q₀ (by simpa [same] using mem) q calls sameConn ne

theorem Ordered.issue (ordered : Ordered conn s) {q : CallId}
    (entering : s.points (conn q) = .inside) (absent : s.manager.calls q = .absent)
    (fresh : ∀ r, q ∉ s.manager.taken r) :
    Ordered conn { s with
      manager := s.manager.setCall q .loadClosed
      points := Function.update s.points (conn q) (.calling q)
      issuedAt := Function.update s.issuedAt q s.clock
      clock := s.clock + 1 } := by
  constructor
  · intro q' there
    by_cases same : q' = q
    · simp [same]
    · have there : s.manager.calls q' ≠ .absent := by simpa [State.setCall, same] using there
      obtain inside | ⟨result, returned⟩ := ordered.busy q' there
      · left
        have apart : conn q' ≠ conn q := by
          intro eq
          rw [eq, entering] at inside
          cases inside
        simpa [apart] using inside
      · exact .inr ⟨result, by simpa [State.setCall, same] using returned⟩
  · intro c q' calls
    by_cases same : c = conn q
    · subst c
      obtain rfl : q = q' := by simpa using calls
      rfl
    · exact ordered.calling c q' (by simpa [same] using calls)
  · intro c held
    by_cases same : c = conn q
    · simp [same]
    · simpa [same] using ordered.entered c held
  · exact ordered.holding
  · exact ordered.delivered
  · intro q' there
    by_cases same : q' = q
    · simp [same]
    · have before := ordered.issued q' (by simpa [State.setCall, same] using there)
      simpa [same] using Nat.lt_succ_of_lt before
  · intro r q' mem
    have other : q' ≠ q := by
      rintro rfl
      exact fresh r mem
    have stamps := ordered.stamped r q' mem
    simp only [Function.update_of_ne other]
    exact ⟨stamps.1, Nat.lt_succ_of_lt stamps.2⟩
  · intro r q₀ mem q' calls sameConn ne
    by_cases same : q' = q
    · subst q'
      simpa using (ordered.stamped r q₀ mem).2
    · have apart : conn q' ≠ conn q := by
        intro eq
        rw [eq] at calls
        exact same (by simpa using calls.symm)
      simpa [same] using ordered.later r q₀ mem q' (by simpa [apart] using calls) sameConn ne

theorem Ordered.setPoint (ordered : Ordered conn s) {c : ConnId} {p : ConnPoint}
    {holder : Option Holder} (idle : ∀ q, s.points c = .calling q →
      ∃ result, s.manager.calls q = .returned result)
    (notCalling : ∀ q, p ≠ .calling q)
    (fits : (holder = none ∧ p = .outside) ∨ (holder = some .conn ∧ p ≠ .outside)) :
    Ordered conn { s with
      points := Function.update s.points c p, mutex := Function.update s.mutex c holder } := by
  have before {c' : ConnId} {q : CallId} (calls : Function.update s.points c p c' = .calling q) :
      s.points c' = .calling q := by
    by_cases same : c' = c
    · subst c'
      exact absurd (by simpa using calls) (notCalling q)
    · simpa [same] using calls
  constructor
  · intro q there
    obtain inside | returned := ordered.busy q there
    · by_cases same : conn q = c
      · exact .inr (idle q (same ▸ inside))
      · exact .inl (by simpa [same] using inside)
    · exact .inr returned
  · exact fun c' q calls => ordered.calling c' q (before calls)
  · intro c' held
    by_cases same : c' = c
    · subst c'
      obtain ⟨rfl, -⟩ | ⟨-, inside⟩ := fits
      · simp at held
      · simpa using inside
    · simpa [same] using ordered.entered c' (by simpa [same] using held)
  · intro c' r held
    by_cases same : c' = c
    · subst c'
      obtain ⟨rfl, -⟩ | ⟨rfl, -⟩ := fits <;> simp at held
    · exact ordered.holding c' r (by simpa [same] using held)
  · exact ordered.delivered
  · exact ordered.issued
  · exact ordered.stamped
  · exact fun r q₀ mem q calls => ordered.later r q₀ mem q (before calls)

theorem Ordered.lockCallback (ordered : Ordered conn s) {r : RunId} {q : CallId}
    (wants : s.callback r = .wants q) :
    Ordered conn { s with
      callback := Function.update s.callback r (.holds q)
      mutex := Function.update s.mutex (conn q) (some (.run r)) } := by
  refine { ordered with entered := ?_, holding := ?_, delivered := ?_ }
  · intro c held
    by_cases same : c = conn q
    · simp [same] at held
    · exact ordered.entered c (by simpa [same] using held)
  · intro c r' held
    by_cases same : c = conn q
    · subst c
      obtain rfl : r = r' := by simpa using held
      exact ⟨q, rfl, by simp⟩
    · obtain ⟨q', at_, holds⟩ := ordered.holding c r' (by simpa [same] using held)
      have other : r' ≠ r := by
        rintro rfl
        simp [wants] at holds
      exact ⟨q', at_, by simpa [other] using holds⟩
  · intro r' q' waits
    by_cases same : r' = r
    · subst r'
      exact ordered.delivered r q' (by simpa [wants, Callback.request] using waits)
    · exact ordered.delivered r' q' (by simpa [same] using waits)

theorem Ordered.unlockCallback (ordered : Ordered conn s) {r : RunId} {q : CallId}
    (holds : s.callback r = .holds q) :
    Ordered conn { s with
      callback :=
        Function.update s.callback r .none, mutex := Function.update s.mutex (conn q) none } := by
  refine { ordered with entered := ?_, holding := ?_, delivered := ?_ }
  · intro c held
    by_cases same : c = conn q
    · simp [same] at held
    · exact ordered.entered c (by simpa [same] using held)
  · intro c r' held
    by_cases same : c = conn q
    · simp [same] at held
    · obtain ⟨q', at_, holds'⟩ := ordered.holding c r' (by simpa [same] using held)
      have other : r' ≠ r := by
        rintro rfl
        obtain rfl : q = q' := by simpa [holds] using holds'
        exact same at_.symm
      exact ⟨q', at_, by simpa [other] using holds'⟩
  · intro r' q' waits
    by_cases same : r' = r
    · simp [same, Callback.request] at waits
    · exact ordered.delivered r' q' (by simpa [same] using waits)

theorem ne_absent_of_queued {p : CallPoint} (queued : p.queued = true) : p ≠ .absent := by
  rintro rfl
  cases queued

theorem Ordered.inside_of_held (ordered : Ordered conn s) (sound : Sound s.manager) {g : GroupId} :
    ∀ q ∈ (s.manager.heap g).held, s.manager.calls q ≠ .absent ∧
      s.points (conn q) = .calling q := by
  intro q mem
  have there := ne_absent_of_queued (sound.heldQueued g q mem)
  obtain inside | ⟨result, returned⟩ := ordered.busy q there
  · exact ⟨there, inside⟩
  · exact absurd (sound.heldUnsent g q mem) (sound.settled.returned q result returned)

section
variable [DecidableEq K] {maxBatchSize : Nat} {key : CallId → K}

theorem runs_calling (sound : Sound s.manager) {r : RunId} (idle : s.callback r = .none)
    (own : owned r a = true) (tr : Transition maxBatchSize key s.manager a m) (r' : RunId)
    (there : s.manager.runs r' ≠ none) (calls : s.callback r' ≠ .none) :
      m.runs r' = s.manager.runs r' := by
  refine runs_step sound.shape tr there ?_
  have other : r' ≠ r := by
    rintro rfl
    exact calls idle
  cases a <;> simp_all [owned]

theorem ordered_step (ordered : Ordered conn s) (sound : Sound s.manager) {a : DeliveryAction}
    (move : Move maxBatchSize key conn s a t) : Ordered conn t := by
  cases move with
  | lock c outside unheld => exact ordered.setPoint (by simp [outside]) (by simp) (by simp)
  | respond c q result calls returned =>
    refine ordered.setPoint ?_ (by simp) (by simp)
    intro q' calls'
    obtain rfl : q = q' := by simpa [calls] using calls'
    exact ⟨result, returned⟩
  | lockCallback r q wants => exact ordered.lockCallback wants
  | unlockCallback r q holds => exact ordered.unlockCallback holds
  | issue q m entering moved =>
    cases step_transition moved with
    | invoke _ absent =>
      refine ordered.issue entering absent fun r mem => ?_
      exact ne_absent_of_queued (sound.takenQueued r q mem) absent
  | manager a m part moved =>
    have tr := step_transition moved
    have entered : ∀ c, a ≠ .invoke c := by
      rintro c rfl
      cases part
    refine ordered.manager (carries_step tr entered) (taken_step tr ?_) ?_
    · rintro r g rfl
      cases part
    · intro r there _
      refine runs_step sound.shape tr there ?_
      cases a <;> simp_all [owned, shared]
  | take a r _ g m own idle running moved =>
    have tr := step_transition moved
    have carries := carries_step tr (ne_invoke_of_owned own)
    have kept := runs_calling sound idle own tr
    refine (ordered.take idle (ordered.inside_of_held sound)).manager ?_
      (take_step tr own running) kept
    exact ⟨carries.absent, carries.returned, carries.sent⟩
  | deliver a r callsBack g q result rest m own idle running moved =>
    have tr := step_transition moved
    have kept : m.taken = s.manager.taken := by
      refine taken_step tr ?_
      rintro r' g' rfl
      obtain rfl : r = r' := by simpa [owned] using own
      simp [running]
    have moved :=
      ordered.manager (carries_step tr (ne_invoke_of_owned own)) kept
        (runs_calling sound idle own tr)
    obtain ⟨running', sent⟩ := deliver_step tr own running
    cases callsBack with
    | false => simpa [← idle] using moved
    | true =>
      have mem := sound.settled.slice r g _ running q (by simp [RunPoint.slice])
      exact moved.wants idle (kept ▸ mem) sent running'
  | run a r _ m own idle notTaking moved =>
    have tr := step_transition moved
    refine ordered.manager (carries_step tr (ne_invoke_of_owned own)) (taken_step tr ?_)
      (runs_calling sound idle own tr)
    rintro r' g rfl
    obtain rfl : r = r' := by simpa [owned] using own
    exact notTaking g

theorem reach_ordered (reach : Reach (step maxBatchSize key conn) free (start k) s) :
    Ordered conn s := by
  induction reach with
  | start => exact ordered_start k
  | next before _ taken ih =>
    exact ordered_step ih (reach_sound (reach_manager before)) (step_move taken)

end

/-! ### Waits -/

/-- When a connection issued the write it waits for; when an executor took its group. -/
def rank (s : Delivery K) : Party → Nat
  | .conn c =>
    match s.points c with
    | .calling q => s.issuedAt q
    | _ => 0
  | .run r =>
    match s.manager.runs r with
    | some ⟨_, p⟩ => if p.willRead then s.clock else s.takenAt r
    | none => s.clock

theorem waits_conn (sound : Sound s.manager) {c : ConnId} {z : Party}
    (waits : WaitsFor conn s (.conn c) z) :
    s.points c = .outside ∨ ∃ q, s.points c = .calling q ∧ s.manager.sent q = [] ∧
      ∀ g, s.manager.calls q ≠ .deleteGroup g := by
  cases waits with
  | entry _ r outside => exact .inl outside
  | result _ q r g p calls waiting running mem =>
    exact .inr ⟨q, calls, sound.sliceUnsent r g p running q mem, by simp [waiting]⟩
  | pending _ q r g p calls waiting mem =>
    exact .inr ⟨q, calls, sound.heldUnsent g q mem, by simp [waiting]⟩
  | group _ q q' g calls locking =>
    exact .inr
      ⟨q, calls, sound.outsideUnsent q (by simp [locking, CallPoint.queued]), by simp [locking]⟩

theorem waits_run (ordered : Ordered conn s) {r : RunId} {z : Party}
    (waits : WaitsFor conn s (.run r) z) : ∀ q, s.callback r ≠ .holds q := by
  intro q holds
  cases waits with
  | callback _ q' wants | otherCallback _ _ q' wants => simp [holds] at wants
  | runGroup _ q' g running =>
    obtain ⟨-, -, g', results, running'⟩ :=
      ordered.delivered r q (by simp [holds, Callback.request])
    simp [running] at running'
  | channel _ g q' result rest idle => simp [holds] at idle

theorem not_waits_of_deleteGroup (ordered : Ordered conn s) (sound : Sound s.manager) {q : CallId}
    {g : GroupId} (locked : s.manager.calls q = .deleteGroup g) {z : Party} :
      ¬ WaitsFor conn s (.conn (conn q)) z := by
  intro waits
  have inside : s.points (conn q) = .calling q := by
    obtain inside | ⟨result, returned⟩ := ordered.busy q (by simp [locked])
    · exact inside
    · simp [locked] at returned
  obtain outside | ⟨q', calls, -, elsewhere⟩ := waits_conn sound waits
  · simp [inside] at outside
  · obtain rfl : q = q' := by simpa [inside] using calls
    exact elsewhere g locked

theorem rank_lt (ordered : Ordered conn s) (sound : Sound s.manager) (x y z : Party)
    (first : WaitsFor conn s x y) (second : WaitsFor conn s y z) : rank s x < rank s y := by
  cases first with
  | callback r q wants held =>
    -- the connection is in a later call than the one the executor has answered
    obtain ⟨mem, sent, g, results, running⟩ :=
      ordered.delivered r q (by simp [wants, Callback.request])
    obtain outside | ⟨q', calls, unsent, -⟩ := waits_conn sound second
    · exact absurd outside (ordered.entered _ held)
    · have ne : q ≠ q' := by
        rintro rfl
        exact sent unsent
      have same := ordered.calling _ _ calls
      have later := ordered.later r q mem q' (same ▸ calls) same.symm ne
      simpa [rank, running, calls, RunPoint.willRead] using later
  | otherCallback r r' q wants held | entry c r' outside held =>
    obtain ⟨q', -, holds⟩ := ordered.holding _ r' held
    exact absurd holds (waits_run ordered second q')
  | result c q r g p calls waiting running mem =>
    have stamped := (ordered.stamped r q (sound.settled.slice r g p running q mem)).1
    have read : p.willRead = false := by
      cases p <;> simp_all [RunPoint.slice, RunPoint.willRead]
    simpa [rank, calls, running, read] using stamped
  | pending c q r g p calls waiting mem running reads =>
    have issued := ordered.issued q (by simp [waiting])
    simpa [rank, calls, running, reads] using issued
  | group c q q' g calls locking locked =>
    exact absurd second (not_waits_of_deleteGroup ordered sound locked)
  | runGroup r q' g running locked =>
    exact absurd second (not_waits_of_deleteGroup ordered sound locked)
  | channel r g q result rest idle running full =>
    obtain ⟨held, full⟩ := Option.ne_none_iff_exists'.mp full
    have unsent := sound.sliceUnsent r g _ running q (by simp [RunPoint.slice])
    exact absurd unsent (sound.channel q held full)

/-- No run of connections and executors leads to a cycle of waits. -/
theorem delivery_never_deadlocks [DecidableEq K] {maxBatchSize : Nat} {key : CallId → K}
    (reach : Reach (step maxBatchSize key conn) free (start k) s) (x : Party) :
    ¬ Relation.TransGen (WaitsFor conn s) x x :=
  acyclic_of_rank (rank s) (rank_lt (reach_ordered reach) (reach_sound (reach_manager reach))) x

/-- The executor of the writes 0 and 1 has answered the first; by then the same connection
has issued the write 2, and a second executor has taken it. -/
def crossing : List DeliveryAction :=
  [.lock 0, .issue 0, .manager (.call 0), .manager (.call 0), .manager (.call 0),
    .manager (.call 0),
   .lock 1, .issue 1, .manager (.call 1), .manager (.call 1), .manager (.call 1),
     .manager (.call 1),
   .manager (.call 1), .manager (.call 1), .run (.run (.full 1)) (.full 1) false,
   .run (.run (.full 1)) (.full 1) false, .run (.run (.full 1)) (.full 1) false,
   .run (.execute (.full 1) [{ affectedRows := 1 }, { affectedRows := 1 }]) (.full 1) false,
   .run (.run (.full 1)) (.full 1) true,
   .manager (.receive 0), .respond 0, .lock 0, .issue 2, .manager (.call 2), .manager (.call 2),
   .manager (.call 2), .manager (.call 2), .manager (.fire 1),
     .run (.run (.timer 1)) (.timer 1) false,
   .run (.run (.timer 1)) (.timer 1) false]

def issuer (q : CallId) : ConnId := if q = 1 then 1 else 0

theorem delivery_never_deadlocks_crossing : ∃ s : Delivery Unit,
    Reach (step 2 (fun _ => ()) issuer) free (start ()) s ∧
      WaitsFor issuer s (.run (.full 1)) (.conn 0) ∧ WaitsFor issuer s (.conn 0) (.run (.timer 1)) ∧
      ∀ x, ¬ Relation.TransGen (WaitsFor issuer s) x x := by
  obtain ⟨s, reach, ends⟩ := free_of_test (step 2 (fun _ => ()) issuer) (start ()) crossing
    (fun s => s.callback (.full 1) = .wants 0 ∧ s.mutex 0 = some .conn ∧ s.points 0 = .calling 2 ∧
      s.manager.calls 2 = .wait ∧ s.manager.runs (.timer 1) = some ⟨1, .compareAndDelete [2]⟩)
    (by decide +kernel)
  obtain ⟨wants, held, calls, waiting, running⟩ := of_decide_eq_true ends
  exact ⟨s, reach, .callback _ 0 wants held, .result 0 2 _ 1 _ calls waiting running (by decide),
    fun x => delivery_never_deadlocks reach x⟩

end TQDBProxy.BatchDelivery
