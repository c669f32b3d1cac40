import Mathlib.Logic.Function.Basic
import TQDBProxy.GuardedRuns
import TQDBProxy.MariaDBSession
import TQDBProxy.PostgresSession

/-! The query cache that both proxies share, as an interleaving of the requests
that consult it. One step is one operation on the store or on the map of flights, one
channel event or the answer of a backend. Time is left to the run: an entry may leave the
store at any moment, and a read of an entry reports any of the three flags. -/

namespace TQDBProxy.QueryCache

open GuardedRuns TQDBProxy.Parser

abbrev RequestId := Nat
abbrev FlightId := Nat

inductive Protocol where
  | mariadb
  | postgres
  deriving DecidableEq

structure Statement where
  protocol : Protocol
  db : GoString
  parsed : ParsedQuery
  deriving DecidableEq

/-- Both proxies look a statement up by its stripped text. -/
def Statement.key (q : Statement) : GoString := q.parsed.query

structure Entry where
  value : List UInt8
  storedBy : RequestId
  deriving DecidableEq

/-- Program points of a request: the `Get` of the handler, the steps of
`GetOrWait`, the execution on a backend and the end of `SetAndNotify`. -/
inductive Point where
  | absent
  | get
  | getOrWait
  | loadOrStore
  | wait (f : FlightId)
  | getAgain
  | execute
  | notify
  | served (e : Entry)
  | finished
  deriving DecidableEq

structure Answers where
  get : Option (List UInt8 × CacheFlag) := none
  getOrWait : Option (List UInt8) × Bool := (none, false)

/-- A fresh or a stale value is served; a refresh is left to the request. -/
def Answers.hit (a : Answers) : Bool := a.get.any fun (_, flag) => flag != .refresh

def Answers.serve (a : Answers) : Bool := a.hit || (a.getOrWait.1.isSome && a.getOrWait.2)

structure State where
  store : GoString → Option Entry := fun _ => none
  inflight : GoString → Option FlightId := fun _ => none
  done : FlightId → Bool := fun _ => false
  fresh : FlightId := 0
  points : RequestId → Point := fun _ => .absent
  answers : RequestId → Answers := fun _ => {}
  arrived : List RequestId := []

namespace State

def setPoint (s : State) (i : RequestId) (p : Point) : State :=
  { s with points := Function.update s.points i p }

def setAnswers (s : State) (i : RequestId) (a : Answers) : State :=
  { s with answers := Function.update s.answers i a }

def setEntry (s : State) (key : GoString) (e : Option Entry) : State :=
  { s with store := Function.update s.store key e }

/-- `LoadAndDelete` of the flight of a key, which is then closed. -/
def endFlight (s : State) (key : GoString) : State :=
  match s.inflight key with
  | some f =>
    { s with
      inflight := Function.update s.inflight key none,
      done := Function.update s.done f true }
  | none => s

end State

inductive Action where
  | arrive (i : RequestId)
  | read (i : RequestId) (flag : CacheFlag)
  | loadOrStore (i : RequestId)
  | wake (i : RequestId)
  | timeout (i : RequestId)
  | respond (i : RequestId) (response : List UInt8)
  | notify (i : RequestId)
  | fail (i : RequestId)
  | localInfile (i : RequestId)
  | expire (key : GoString)
  deriving DecidableEq

variable (statement : RequestId → Statement)

def readStep (s : State) (i : RequestId) (flag : CacheFlag) : Option State :=
  let entry := s.store (statement i).key
  let answers := s.answers i
  match s.points i, entry with
  | .get, none => some (s.setPoint i .getOrWait)
  | .get, some e =>
    let s := s.setAnswers i { answers with get := some (e.value, flag) }
    some (s.setPoint i (if flag = .refresh then .getOrWait else .served e))
  | .getOrWait, none => some (s.setPoint i .loadOrStore)
  | .getOrWait, some e =>
    some ((s.setAnswers i { answers with getOrWait := (some e.value, false) }).setPoint i .execute)
  | .getAgain, none =>
    some ((s.setAnswers i { answers with getOrWait := (none, true) }).setPoint i .execute)
  | .getAgain, some e =>
    some
      ((s.setAnswers i { answers with getOrWait := (some e.value, true) }).setPoint i (.served e))
  | _, _ => none

def loadOrStoreStep (s : State) (i : RequestId) : Option State :=
  if s.points i = .loadOrStore then
    match s.inflight (statement i).key with
    | some f => some (s.setPoint i (.wait f))
    | none =>
      some ({ s with
        inflight := Function.update s.inflight (statement i).key (some s.fresh)
        fresh := s.fresh + 1 }.setPoint i .execute)
  else none

def step (s : State) : Action → Option State
  | .arrive i =>
    if s.points i = .absent ∧ (statement i).parsed.isCacheable then
      some ({ s with arrived := i :: s.arrived }.setPoint i .get)
    else none
  | .read i flag => readStep statement s i flag
  | .loadOrStore i => loadOrStoreStep statement s i
  | .wake i =>
    match s.points i with
    | .wait f => if s.done f then some (s.setPoint i .getAgain) else none
    | _ => none
  | .timeout i =>
    match s.points i with
    | .wait _ =>
      some ((s.setAnswers i { s.answers i with getOrWait := (none, true) }).setPoint i .execute)
    | _ => none
  | .respond i response =>
    if s.points i = .execute then
      let s := if 0 < ttlDuration (statement i).parsed.ttl then
        s.setEntry (statement i).key (some ⟨response, i⟩) else s
      some (s.setPoint i .notify)
    else none
  | .notify i =>
    if s.points i = .notify then some ((s.endFlight (statement i).key).setPoint i .finished)
      else none
  | .fail i =>
    if s.points i = .execute then some ((s.endFlight (statement i).key).setPoint i .finished)
      else none
  | .localInfile i =>
    if s.points i = .execute ∧ (statement i).protocol = .mariadb then some (s.setPoint i .finished)
    else none
  | .expire key => some (s.setEntry key none)

variable {statement} {s t : State} {a : Action} {i : RequestId} {p : Point} {b : Answers}

/-- The ways in which one request goes on: its next point and its answers so far. -/
inductive Progress (statement : RequestId → Statement) (s : State) (a : Action) (i : RequestId) :
    Point → Answers → Prop where
  | arrive : a = .arrive i → s.points i = .absent → Progress statement s a i .get (s.answers i)
  | miss : s.points i = .get → Progress statement s a i .getOrWait (s.answers i)
  | refresh (e : Entry) : s.points i = .get →
      Progress statement s a i .getOrWait { s.answers i with get := some (e.value, .refresh) }
  | hit (e : Entry) (flag : CacheFlag) : s.points i = .get → s.store (statement i).key = some e →
      flag ≠ .refresh →
      Progress statement s a i (.served e) { s.answers i with get := some (e.value, flag) }
  | cold : s.points i = .getOrWait → Progress statement s a i .loadOrStore (s.answers i)
  | found (e : Entry) : s.points i = .getOrWait →
      Progress statement s a i .execute { s.answers i with getOrWait := (some e.value, false) }
  | join (f : FlightId) :
      s.points i = .loadOrStore → Progress statement s a i (.wait f) (s.answers i)
  | first : s.points i = .loadOrStore → Progress statement s a i .execute (s.answers i)
  | wake (f : FlightId) : s.points i = .wait f → Progress statement s a i .getAgain (s.answers i)
  | unanswered : (∃ f, s.points i = .wait f) ∨ s.points i = .getAgain →
      Progress statement s a i .execute { s.answers i with getOrWait := (none, true) }
  | given (e : Entry) : s.points i = .getAgain → s.store (statement i).key = some e →
      Progress statement s a i (.served e) { s.answers i with getOrWait := (some e.value, true) }
  | store : s.points i = .execute → Progress statement s a i .notify (s.answers i)
  | finish : s.points i = .execute ∨ s.points i = .notify →
      Progress statement s a i .finished (s.answers i)

theorem Progress.present (progress : Progress statement s a i p b) (other : a ≠ .arrive i) :
    s.points i ≠ .absent := by
  cases progress with
  | arrive same => exact absurd same other
  | unanswered point => rcases point with ⟨f, point⟩ | point <;> simp [point]
  | finish point => rcases point with point | point <;> simp [point]
  | _ => simp_all

/-- A step of one request, with what it does to the shared store. -/
structure Stepped (statement : RequestId → Statement) (s : State) (a : Action) (t : State)
    (i : RequestId) (p : Point) (b : Answers) : Prop where
  progress : Progress statement s a i p b
  points : t.points = Function.update s.points i p
  answers : t.answers = Function.update s.answers i b
  arrived : t.arrived = if a = .arrive i then i :: s.arrived else s.arrived
  store : ∀ key e, t.store key = some e →
    s.store key = some e ∨ (key = (statement i).key ∧ e.storedBy = i)

theorem stepped_setPoint {u : State} (progress : Progress statement s a i p (s.answers i))
    (points : u.points = s.points) (answers : u.answers = s.answers)
    (arrived : u.arrived = s.arrived) (store : u.store = s.store) (other : a ≠ .arrive i) :
    Stepped statement s a (u.setPoint i p) i p (s.answers i) where
  progress := progress
  points := by rw [← points]; rfl
  answers := by
    rw [Function.update_eq_self]
    exact answers
  arrived := by
    rw [if_neg other]
    exact arrived
  store key e found := by
    rw [← store]
    exact .inl found

theorem stepped_setAnswers (progress : Progress statement s a i p b) (other : a ≠ .arrive i) :
    Stepped statement s a ((s.setAnswers i b).setPoint i p) i p b where
  progress := progress
  points := rfl
  answers := rfl
  arrived := by
    rw [if_neg other]
    rfl
  store key e found := .inl found

theorem endFlight_rest (s : State) (key : GoString) :
    (s.endFlight key).points = s.points ∧ (s.endFlight key).answers = s.answers ∧
      (s.endFlight key).arrived = s.arrived ∧ (s.endFlight key).store = s.store := by
  unfold State.endFlight
  split <;> exact ⟨rfl, rfl, rfl, rfl⟩

theorem stepped_read {flag : CacheFlag} (taken : readStep statement s i flag = some t) :
    ∃ p b, Stepped statement s (.read i flag) t i p b := by
  have other : Action.read i flag ≠ .arrive i := by simp
  unfold readStep at taken
  dsimp only at taken
  split at taken <;> cases taken <;> rename_i point found
  · exact ⟨_, _, stepped_setPoint (.miss point) rfl rfl rfl rfl other⟩
  · rename_i e
    by_cases stale : flag = .refresh
    · subst stale
      exact ⟨_, _, stepped_setAnswers (.refresh e point) other⟩
    · rw [if_neg stale]
      exact ⟨_, _, stepped_setAnswers (.hit e flag point found stale) other⟩
  · exact ⟨_, _, stepped_setPoint (.cold point) rfl rfl rfl rfl other⟩
  · exact ⟨_, _, stepped_setAnswers (.found _ point) other⟩
  · exact ⟨_, _, stepped_setAnswers (.unanswered (.inr point)) other⟩
  · exact ⟨_, _, stepped_setAnswers (.given _ point found) other⟩

theorem stepped_loadOrStore (taken : loadOrStoreStep statement s i = some t) :
    ∃ p b, Stepped statement s (.loadOrStore i) t i p b := by
  have other : Action.loadOrStore i ≠ .arrive i := by simp
  unfold loadOrStoreStep at taken
  split_ifs at taken with point
  split at taken <;> cases taken
  · exact ⟨_, _, stepped_setPoint (.join _ point) rfl rfl rfl rfl other⟩
  · exact ⟨_, _, stepped_setPoint (.first point) rfl rfl rfl rfl other⟩

theorem stepped_respond {response : List UInt8}
    (taken : step statement s (.respond i response) = some t) :
    ∃ p b, Stepped statement s (.respond i response) t i p b := by
  simp only [step] at taken
  split_ifs at taken with point kept <;> cases taken
  · refine ⟨_, _, ⟨.store point, rfl, (Function.update_eq_self ..).symm, rfl, ?_⟩⟩
    intro key e found
    by_cases same : key = (statement i).key
    · subst same
      simp only [State.setPoint, State.setEntry, Function.update_self, Option.some.injEq] at found
      rw [← found]
      exact .inr ⟨rfl, rfl⟩
    · exact .inl (by simpa [State.setPoint, State.setEntry, same] using found)
  · exact ⟨_, _, stepped_setPoint (.store point) rfl rfl rfl rfl (by simp)⟩

theorem stepped_endFlight (ended : s.points i = .execute ∨ s.points i = .notify)
    (other : a ≠ .arrive i) :
    Stepped statement s a ((s.endFlight (statement i).key).setPoint i .finished) i .finished
      (s.answers i) := by
  obtain ⟨points, answers, arrived, store⟩ := endFlight_rest s (statement i).key
  exact stepped_setPoint (.finish ended) points answers arrived store other

theorem step_stepped (taken : step statement s a = some t) :
    (∃ key, t = s.setEntry key none) ∨ ∃ i p b, Stepped statement s a t i p b := by
  cases a with
  | arrive i =>
    simp only [step] at taken
    split_ifs at taken with point
    cases taken
    refine .inr ⟨i, _, _, ⟨.arrive rfl point.1, rfl, (Function.update_eq_self ..).symm, ?_, ?_⟩⟩
    · rw [if_pos rfl]
      rfl
    · exact fun key e found => .inl found
  | read i flag => exact .inr ⟨i, stepped_read taken⟩
  | loadOrStore i => exact .inr ⟨i, stepped_loadOrStore taken⟩
  | wake i =>
    simp only [step] at taken
    split at taken
    · rename_i f point
      split_ifs at taken
      cases taken
      exact .inr ⟨i, _, _, stepped_setPoint (.wake f point) rfl rfl rfl rfl (by simp)⟩
    · cases taken
  | timeout i =>
    simp only [step] at taken
    split at taken
    · rename_i f point
      cases taken
      exact .inr ⟨i, _, _, stepped_setAnswers (.unanswered (.inl ⟨f, point⟩)) (by simp)⟩
    · cases taken
  | respond i response => exact .inr ⟨i, stepped_respond taken⟩
  | notify i =>
    simp only [step] at taken
    split_ifs at taken with point
    cases taken
    exact .inr ⟨i, _, _, stepped_endFlight (.inr point) (by simp)⟩
  | fail i =>
    simp only [step] at taken
    split_ifs at taken with point
    cases taken
    exact .inr ⟨i, _, _, stepped_endFlight (.inl point) (by simp)⟩
  | localInfile i =>
    simp only [step] at taken
    split_ifs at taken with point
    cases taken
    exact .inr ⟨i, _, _, stepped_setPoint (.finish (.inl point.1)) rfl rfl rfl rfl (by simp)⟩
  | expire key => exact .inl ⟨key, (Option.some.inj taken).symm⟩

end TQDBProxy.QueryCache
