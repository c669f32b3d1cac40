import TQDBProxy.MariaDBSteps
import TQDBProxy.PostgresSteps
import TQDBProxy.WriteBatchKeys

/-! All client connections of one proxy together with its one write-batch manager.
A step of a client is taken at once, with the answer the manager will give; what
it enqueues becomes a call of the manager, which proceeds on its own. A session
keeps only the events of its last step. -/

namespace TQDBProxy

open GuardedRuns WriteBatchManager

structure Proxy where
  Hello : Type
  Session : Type
  Input : Type
  handleConnection : Hello → Option Session
  step : Session → Input → Option Session
  forget : Session → Session
  events : Session → List Event

def MariaDB.proxy (cfg : ProxyConfig) : Proxy where
  Hello := MariaDB.World × GoString
  Session := MariaDB.Session
  Input := MariaDB.Input × MariaDB.World
  handleConnection hello := MariaDB.handleConnection cfg hello.1 hello.2
  step := MariaDB.step cfg
  forget s := { s with events := [] }
  events s := s.events

def Postgres.proxy (cfg : ProxyConfig) : Proxy where
  Hello := GoString × GoString
  Session := Postgres.Session
  Input := Postgres.Message × Postgres.World
  handleConnection hello := Postgres.handleConnection cfg hello.1 hello.2
  step := Postgres.step
  forget s := { s with events := [] }
  events s := s.events

/-- A write handed to the manager, with the connection that issued it and the
database that was current there. -/
structure Request where
  conn : Nat
  db : GoString
  batchKey : GoString
  query : GoString
  params : List Value
  batchMs : Nat
  deriving DecidableEq

def Event.request (conn : Nat) : Event → Option Request
  | .enqueued db key query params batchMs => some ⟨conn, db, key, query, params, batchMs⟩
  | _ => none

/-- The Enqueue calls are numbered in the order in which they are made. -/
structure System (p : Proxy) where
  clients : Nat → Option p.Session
  requests : List Request
  manager : State GoString

inductive SystemAction (p : Proxy) where
  | connect (conn : Nat) (hello : p.Hello)
  | client (conn : Nat) (input : p.Input)
  | manager (a : Action)

def callKey (requests : List Request) (c : CallId) : GoString :=
  (requests[c]?.map (·.batchKey)).getD []

namespace System

variable {p : Proxy}

def start : System p := ⟨fun _ => none, [], init []⟩

def newRequests (conn : Nat) (d : p.Session) : List Request :=
  (p.events d).reverse.filterMap (Event.request conn)

def answer (s : System p) (conn : Nat) (d : p.Session) : System p :=
  { s with
    clients := Function.update s.clients conn (some d),
    requests := s.requests ++ newRequests conn d }

def made (s : System p) : Action → Bool
  | .invoke c => c < s.requests.length
  | _ => true

def step (maxBatchSize : Nat) (s : System p) : SystemAction p → Option (System p)
  | .connect conn hello =>
    if (s.clients conn).isNone then
      (p.handleConnection hello).map fun d =>
        { s with clients := Function.update s.clients conn (some d) }
    else none
  | .client conn input =>
    (s.clients conn).bind fun c => (p.step (p.forget c) input).map (s.answer conn)
  | .manager a =>
    if s.made a then
      (WriteBatchManager.step maxBatchSize (callKey s.requests) s.manager a).map fun m =>
        { s with manager := m }
    else none

def onClients (check : p.Session → p.Input → Bool) (s : System p) : SystemAction p → Bool
  | .client conn input => (s.clients conn).all fun c => check (p.forget c) input
  | _ => true

variable {maxBatchSize : Nat} {s t : System p}

theorem client_step {conn : Nat} {input : p.Input}
    (taken : s.step maxBatchSize (.client conn input) = some t) :
    ∃ c d, s.clients conn = some c ∧ p.step (p.forget c) input = some d ∧ t = s.answer conn d := by
  obtain ⟨c, found, rest⟩ := Option.bind_eq_some_iff.mp taken
  obtain ⟨d, stepped, same⟩ := Option.map_eq_some_iff.mp rest
  exact ⟨c, d, found, stepped, same.symm⟩

theorem manager_step {a : Action} (taken : s.step maxBatchSize (.manager a) = some t) :
    s.made a = true ∧ ∃ m, Transition maxBatchSize (callKey s.requests) s.manager a m ∧
      t = { s with manager := m } := by
  simp only [step] at taken
  split_ifs at taken with ready
  obtain ⟨m, stepped, same⟩ := Option.map_eq_some_iff.mp taken
  exact ⟨ready, m, step_transition stepped, same.symm⟩

theorem connect_step {conn : Nat} {hello : p.Hello}
    (taken : s.step maxBatchSize (.connect conn hello) = some t) :
    t.requests = s.requests ∧ t.manager = s.manager := by
  simp only [step] at taken
  split_ifs at taken
  obtain ⟨d, -, rfl⟩ := Option.map_eq_some_iff.mp taken
  exact ⟨rfl, rfl⟩

theorem callKey_append {requests later : List Request} {c : CallId} (old : c < requests.length) :
    callKey (requests ++ later) c = callKey requests c := by
  simp [callKey, List.getElem?_append_left old]

/-- The manager's calls are requests that were made, and are keyed by them. -/
structure Sound (s : System p) : Prop where
  shape : Shape s.manager
  located : ∃ place, Located place s.manager
  keyed : Keyed (callKey s.requests) s.manager
  joined : Joined s.manager
  invoked : ∀ c, s.manager.calls c ≠ .absent → c < s.requests.length

theorem sound_start : Sound (start (p := p)) where
  shape := shape_init []
  located := ⟨_, located_init []⟩
  keyed := keyed_init []
  joined := joined_init []
  invoked := fun _ present => absurd rfl present

theorem Sound.answer (sound : Sound s) (conn : Nat) (d : p.Session) : Sound (s.answer conn d) := by
  obtain ⟨place, located⟩ := sound.located
  refine { sound with keyed := ?_, invoked := ?_ }
  · exact sound.keyed.rekey located fun c present => callKey_append (sound.invoked c present)
  · intro c present
    have grown : s.requests.length ≤ (s.answer conn d).requests.length := by
      simp [System.answer]
    exact Nat.lt_of_lt_of_le (sound.invoked c present) grown

theorem sound_step {a : SystemAction p} (sound : Sound s) (taken : s.step maxBatchSize a = some t) :
    Sound t := by
  cases a with
  | connect conn hello =>
    obtain ⟨requests, manager⟩ := connect_step taken
    constructor <;> rw [manager]
    · exact sound.shape
    · exact sound.located
    · rw [requests]
      exact sound.keyed
    · exact sound.joined
    · rw [requests]
      exact sound.invoked
  | client conn input =>
    obtain ⟨c, d, -, -, rfl⟩ := client_step taken
    exact sound.answer conn d
  | manager a =>
    obtain ⟨ready, m, tr, rfl⟩ := manager_step taken
    obtain ⟨place, located⟩ := sound.located
    refine ⟨shape_step sound.shape tr, located_step located tr,
      keyed_step sound.keyed sound.shape tr,
      joined_step sound.joined located tr, ?_⟩
    intro c present
    by_cases before : s.manager.calls c = .absent
    · by_cases same : a = .invoke c
      · subst same
        simpa [made] using ready
      · exact absurd (absent_step before same tr) present
    · exact sound.invoked c before

theorem reach_sound {guard : System p → SystemAction p → Prop}
    (reach : Reach (step maxBatchSize) guard start s) : Sound s :=
  reach.invariant sound_start fun _ _ _ sound _ taken => sound_step sound taken

theorem Sound.request_of_queued (sound : Sound s) {c : CallId}
    (queued : (s.manager.calls c).queued = true) : ∃ r, s.requests[c]? = some r := by
  have made : c < s.requests.length := by
    refine sound.invoked c fun absent => ?_
    simp [absent, CallPoint.queued] at queued
  exact ⟨s.requests[c], List.getElem?_eq_getElem made⟩

theorem Sound.executed_request (sound : Sound s) {c : CallId} (mem : c ∈ s.manager.executed) :
    ∃ r, s.requests[c]? = some r :=
  sound.request_of_queued (sound.joined.executed c mem)

theorem Sound.taken_requests (sound : Sound s) {run : RunId} {c d : CallId}
    (mem : c ∈ s.manager.taken run) (mem' : d ∈ s.manager.taken run) :
    ∃ r q, s.requests[c]? = some r ∧ s.requests[d]? = some q ∧ r.batchKey = q.batchKey := by
  obtain ⟨place, located⟩ := sound.located
  obtain ⟨r, found⟩ := sound.request_of_queued (located.queued_of_taken mem)
  obtain ⟨q, found'⟩ := sound.request_of_queued (located.queued_of_taken mem')
  refine ⟨r, q, found, found', ?_⟩
  simpa [callKey, found, found'] using sound.keyed.taken run c mem d mem'

theorem requests_of_enqueued {check : p.Session → p.Input → Bool} {good : Request → Prop}
    (enqueues : ∀ conn c input d, check (p.forget c) input = true →
      p.step (p.forget c) input = some d → ∀ db key query params batchMs,
      .enqueued db key query params batchMs ∈ p.events d →
        good ⟨conn, db, key, query, params, batchMs⟩)
    (reach : Reach (step maxBatchSize) (fun s a => s.onClients check a = true) start s) :
    ∀ r ∈ s.requests, good r := by
  refine reach.invariant (P := fun s => ∀ r ∈ s.requests, good r) (by simp [start]) ?_
  intro s a t before guard taken
  cases a with
  | connect conn hello =>
    rw [(connect_step taken).1]
    exact before
  | manager a =>
    obtain ⟨-, m, -, rfl⟩ := manager_step taken
    exact before
  | client conn input =>
    obtain ⟨c, d, found, stepped, rfl⟩ := client_step taken
    intro r mem
    rcases List.mem_append.mp mem with old | new
    · exact before r old
    · obtain ⟨e, logged, made⟩ := List.mem_filterMap.mp new
      cases e <;> cases made
      refine enqueues conn c input d ?_ stepped _ _ _ _ _ (List.mem_reverse.mp logged)
      simpa [onClients, found] using guard

end System

end TQDBProxy
