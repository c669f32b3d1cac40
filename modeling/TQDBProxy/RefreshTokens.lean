import TQDBProxy.CacheSingleFlight

/-! Refresh tokens. Past its TTL an entry stays in the store; the first lookup that finds
it so is told to refresh it, and later ones are told that somebody does. Here the
requests of `QueryCache` run with the flags that such a store gives. -/

namespace TQDBProxy.RefreshTokens

open GuardedRuns QueryCache TQDBProxy.Parser

/-- A request: a text, or an execution that is looked up by its digest. -/
structure Request where
  statement : Statement
  digest : Option GoString

namespace Request

/-- The statement under the key by which the request is looked up. -/
def lookedUp (r : Request) : Statement :=
  match r.digest with
  | none => r.statement
  | some digest => { r.statement with parsed := { r.statement.parsed with query := digest } }

def key (r : Request) : GoString := r.lookedUp.key

def prepared (r : Request) : Bool := r.digest.isSome

end Request

/-- The age of an entry: within its TTL, past it, or past it with the token handed out. -/
inductive Phase where
  | fresh
  | due
  | handed (i : RequestId)
  deriving DecidableEq

def Phase.flag : Phase → CacheFlag
  | .fresh => .fresh
  | .due => .refresh
  | .handed _ => .stale

/-- The ages of the entries, and of each request whether it was told to refresh, whether
the backend answered it and whether it stored the answer. A value is served `unattended` when
it is past its TTL and the request that was told to refresh it has ended. -/
structure Ledger where
  phase : GoString → Phase := fun _ => .fresh
  token : RequestId → Bool := fun _ => false
  answered : RequestId → Bool := fun _ => false
  stored : RequestId → Bool := fun _ => false
  unattended : Bool := false

structure State where
  cache : QueryCache.State := {}
  ledger : Ledger := {}

inductive Action where
  | arrive (i : RequestId)
  | read (i : RequestId)
  | loadOrStore (i : RequestId)
  | wake (i : RequestId)
  | timeout (i : RequestId)
  | respond (i : RequestId) (response : List UInt8)
  | notify (i : RequestId)
  | fail (i : RequestId)
  | localInfile (i : RequestId)
  | soften (key : GoString)
  | expire (key : GoString)
  deriving DecidableEq

def State.due (s : State) (key : GoString) : Bool :=
  (s.cache.store key).isSome && s.ledger.phase key = .due

def State.deserted (s : State) (key : GoString) : Bool :=
  match s.ledger.phase key with
  | .handed i => (s.cache.store key).isSome && (s.cache.points i).ended
  | _ => false

def Ledger.hand (l : Ledger) (key : GoString) (i : RequestId) : Ledger :=
  { l with
    phase := Function.update l.phase key (.handed i),
    token := Function.update l.token i true }

def Ledger.answer (l : Ledger) (key : GoString) (i : RequestId) (kept : Bool) : Ledger :=
  { l with
    phase := if kept then Function.update l.phase key .fresh else l.phase
    answered := Function.update l.answered i true
    stored := Function.update l.stored i kept }

def Ledger.watch (l : Ledger) (lapse : Bool) : Ledger :=
  if lapse then { l with unattended := true } else l

def isServed : Point → Bool
  | .served _ => true
  | _ => false

variable (requests : RequestId → Request)

/-- The lookup of a prepared execution: only the PostgreSQL proxy heeds the flag. -/
def lookupStep (s : QueryCache.State) (i : RequestId) (flag : CacheFlag) :
    Option QueryCache.State :=
  match s.points i, s.store (requests i).key with
  | .get, none => some (s.setPoint i .execute)
  | .get, some e =>
    some (s.setPoint i
      (if flag = .refresh ∧ (requests i).statement.protocol = .postgres then .execute else
        .served e))
  | _, _ => none

abbrev cacheStep : QueryCache.State → QueryCache.Action → Option QueryCache.State :=
  QueryCache.step fun i => (requests i).lookedUp

def readStep (s : State) (i : RequestId) : Option QueryCache.State :=
  let flag := (s.ledger.phase (requests i).key).flag
  if (requests i).prepared then lookupStep requests s.cache i flag else
    cacheStep requests s.cache (.read i flag)

def step (s : State) : Action → Option State
  | .arrive i => (cacheStep requests s.cache (.arrive i)).map ({ s with cache := · })
  | .read i =>
    (readStep requests s i).map fun c =>
      ⟨c, (if s.due (requests i).key then s.ledger.hand (requests i).key i else s.ledger).watch
        (isServed (c.points i) && s.deserted (requests i).key)⟩
  | .loadOrStore i => (cacheStep requests s.cache (.loadOrStore i)).map ({ s with cache := · })
  | .wake i => (cacheStep requests s.cache (.wake i)).map ({ s with cache := · })
  | .timeout i => (cacheStep requests s.cache (.timeout i)).map ({ s with cache := · })
  | .respond i response =>
    (cacheStep requests s.cache (.respond i response)).map fun c =>
      ⟨c, s.ledger.answer (requests i).key i (0 < ttlDuration (requests i).lookedUp.parsed.ttl)⟩
  | .notify i => (cacheStep requests s.cache (.notify i)).map ({ s with cache := · })
  | .fail i => (cacheStep requests s.cache (.fail i)).map ({ s with cache := · })
  | .localInfile i =>
    (cacheStep requests s.cache (.localInfile i)).map fun c =>
      ⟨c, s.ledger.answer (requests i).key i false⟩
  | .soften key =>
    if (s.cache.store key).isSome ∧ s.ledger.phase key = .fresh then
      some { s with ledger := { s.ledger with phase := Function.update s.ledger.phase key .due } }
    else none
  | .expire key => (cacheStep requests s.cache (.expire key)).map ({ s with cache := · })

/-- The holder of a token is not served from the cache, what a backend answers to it is
stored, and a value past its TTL is served only while a request is at work on it. -/
structure Used (s : State) : Prop where
  queries : ∀ i e, s.ledger.token i = true → s.cache.points i ≠ .served e
  stores : ∀ i, s.ledger.token i = true → s.ledger.answered i = true → s.ledger.stored i = true
  attended : s.ledger.unattended = false

/-- The prepared path of the MariaDB proxy does not find an entry past its TTL. A text that
has waited for another fetch is not served with a token. No request finds an entry whose token
was handed to a request that has ended. With a token the life time of the answer is positive
and the answer is no request for a file. -/
def keepsToken (s : State) : Action → Bool
  | .read i =>
    match s.cache.points i with
    | .get =>
      !((requests i).prepared && (requests i).statement.protocol = .mariadb &&
        s.due (requests i).key) && !s.deserted (requests i).key
    | .getAgain =>
      (s.cache.store (requests i).key).isNone ||
        !(s.ledger.token i || s.due (requests i).key || s.deserted (requests i).key)
    | _ => true
  | .respond i _ => !s.ledger.token i || 0 < ttlDuration (requests i).lookedUp.parsed.ttl
  | .localInfile i => !s.ledger.token i
  | _ => true

variable {requests} {s t : State} {a : Action} {i : RequestId} {p : Point} {c : QueryCache.State}

/-! ### What a step does -/

def Moves (s : State) (i : RequestId) (p : Point) (c : QueryCache.State) : Prop :=
  c.points = Function.update s.cache.points i p

theorem Moves.self (moves : Moves s i p c) : c.points i = p := by
  rw [moves, Function.update_self]

theorem Moves.other (moves : Moves s i p c) {j : RequestId} (other : j ≠ i) :
    c.points j = s.cache.points j := by
  rw [moves, Function.update_of_ne other]

def Point.pending : Point → Bool
  | .served _ | .finished | .notify => false
  | _ => true

/-- A request goes on, takes a token and goes on, takes one and is served, or is served. -/
inductive Transition (requests : RequestId → Request) (s : State) : Action → State → Prop where
  | goes (a : Action) (i : RequestId) (p : Point) (c : QueryCache.State) : Moves s i p c →
      Point.pending (s.cache.points i) = true → Point.pending p = true →
      (p = .absent ∨ p = .get → s.cache.points i = .absent) → keepsToken requests s a = true →
      Transition requests s a ⟨c, s.ledger⟩
  | takes (i : RequestId) (p : Point) (c : QueryCache.State) : Moves s i p c →
      Point.pending (s.cache.points i) = true → Point.pending p = true → p ≠ .absent ∧ p ≠ .get →
      keepsToken requests s (.read i) = true →
      Transition requests s (.read i) ⟨c, s.ledger.hand (requests i).key i⟩
  | drops (i : RequestId) (e : Entry) (c : QueryCache.State) : Moves s i (.served e) c →
      keepsToken requests s (.read i) = false →
      Transition requests s (.read i) ⟨c, s.ledger.hand (requests i).key i⟩
  | serves (i : RequestId) (e : Entry) (c : QueryCache.State) : Moves s i (.served e) c →
      s.cache.points i = .get ∨ s.cache.points i = .getAgain →
      (keepsToken requests s (.read i) = true ↔ (s.cache.points i = .getAgain →
        s.ledger.token i = false) ∧ s.deserted (requests i).key = false) →
      Transition requests s (.read i) ⟨c, s.ledger.watch (s.deserted (requests i).key)⟩
  | answers (a : Action) (i : RequestId) (p : Point) (c : QueryCache.State) (kept : Bool) :
      Moves s i p c → p = .notify ∨ p = .finished → s.cache.points i = .execute →
      keepsToken requests s a = (!s.ledger.token i || kept) →
      Transition requests s a ⟨c, s.ledger.answer (requests i).key i kept⟩
  | ends (a : Action) (i : RequestId) (c : QueryCache.State) : Moves s i .finished c →
      keepsToken requests s a = true → Transition requests s a ⟨c, s.ledger⟩
  | ages (a : Action) (c : QueryCache.State) (phase : GoString → Phase) :
      c.points = s.cache.points → keepsToken requests s a = true →
      Transition requests s a ⟨c, { s.ledger with phase }⟩

theorem moves_endFlight (key : GoString) : Moves s i p ((s.cache.endFlight key).setPoint i p) := by
  obtain ⟨points, -, -, -⟩ := endFlight_rest s.cache key
  rw [Moves, ← points]
  rfl

theorem due_of_phase {e : Entry} {key : GoString} (found : s.cache.store key = some e)
    (phase : s.ledger.phase key = .due) : s.due key = true ∧ s.deserted key = false := by
  simp [State.due, State.deserted, found, phase]

theorem not_due_of_phase {key : GoString} (phase : s.ledger.phase key ≠ .due) :
    s.due key = false := by
  simp [State.due, phase]

theorem not_due_of_missing {key : GoString} (missing : s.cache.store key = none) :
    s.due key = false ∧ s.deserted key = false := by
  constructor
  · simp [State.due, missing]
  · unfold State.deserted
    split <;> simp [missing]

theorem deserted_of_due {key : GoString} (due : s.due key = true) : s.deserted key = false := by
  simp only [State.due, Bool.and_eq_true, decide_eq_true_eq] at due
  simp [State.deserted, due.2]

theorem flag_eq_refresh_iff {phase : Phase} : phase.flag = .refresh ↔ phase = .due := by
  cases phase <;> simp [Phase.flag]

theorem watch_false {l : Ledger} {lapse : Bool} (none : lapse = false) : l.watch lapse = l := by
  rw [none]
  rfl

theorem setPoint_self {u : QueryCache.State} : (u.setPoint i p).points i = p :=
  Function.update_self ..

theorem lookup_transition (prepared : (requests i).prepared = true)
    (read : lookupStep requests s.cache i (s.ledger.phase (requests i).key).flag = some c) :
    Transition requests s (.read i)
      ⟨c, (if s.due (requests i).key then s.ledger.hand (requests i).key i else s.ledger).watch
        (isServed (c.points i) && s.deserted (requests i).key)⟩ := by
  unfold lookupStep at read
  split at read
  · rename_i point missing
    obtain rfl := Option.some.inj read
    obtain ⟨young, kept⟩ := not_due_of_missing missing
    rw [young, watch_false (by rw [setPoint_self]; rfl)]
    exact .goes _ i _ _ rfl (by rw [point]; rfl) rfl (by simp)
      (by simp [keepsToken, point, young, kept])
  · rename_i e point found
    obtain rfl := Option.some.inj read
    by_cases phase : s.ledger.phase (requests i).key = .due
    · obtain ⟨due, kept⟩ := due_of_phase found phase
      rw [due, watch_false (by rw [kept, Bool.and_false])]
      cases protocol : (requests i).statement.protocol with
      | mariadb =>
        rw [if_neg (by simp)]
        exact .drops i e _ rfl (by simp [keepsToken, point, prepared, protocol, due])
      | postgres =>
        rw [if_pos ⟨flag_eq_refresh_iff.mpr phase, rfl⟩]
        exact .takes i .execute _ rfl (by rw [point]; rfl) rfl (by simp)
          (by simp [keepsToken, point, protocol, kept])
    · have young := not_due_of_phase phase
      rw [young, if_neg fun told => phase (flag_eq_refresh_iff.mp told.1), setPoint_self]
      exact .serves i e _ rfl (.inl point) (by simp [keepsToken, point, young])
  · cases read

theorem read_transition (text : (requests i).prepared = false)
    (read : cacheStep requests s.cache (.read i (s.ledger.phase (requests i).key).flag) = some c) :
    Transition requests s (.read i)
      ⟨c, (if s.due (requests i).key then s.ledger.hand (requests i).key i else s.ledger).watch
        (isServed (c.points i) && s.deserted (requests i).key)⟩ := by
  have keyed : (requests i).lookedUp.key = (requests i).key := rfl
  simp only [QueryCache.step, QueryCache.readStep, keyed, flag_eq_refresh_iff] at read
  split at read
  · rename_i point missing
    obtain rfl := Option.some.inj read
    obtain ⟨young, kept⟩ := not_due_of_missing missing
    rw [young, watch_false (by rw [setPoint_self]; rfl)]
    exact .goes _ i _ _ rfl (by rw [point]; rfl) rfl (by simp)
      (by simp [keepsToken, point, young, kept])
  · rename_i e point found
    obtain rfl := Option.some.inj read
    by_cases phase : s.ledger.phase (requests i).key = .due
    · obtain ⟨due, kept⟩ := due_of_phase found phase
      rw [due, if_pos phase, watch_false (by rw [kept, Bool.and_false])]
      exact .takes i .getOrWait _ rfl (by rw [point]; rfl) rfl (by simp)
        (by simp [keepsToken, point, text, kept])
    · have young := not_due_of_phase phase
      rw [young, if_neg phase, setPoint_self]
      exact .serves i e _ rfl (.inl point) (by simp [keepsToken, point, young])
  · rename_i point missing
    obtain rfl := Option.some.inj read
    rw [(not_due_of_missing missing).1, watch_false (by rw [setPoint_self]; rfl)]
    exact .goes _ i _ _ rfl (by rw [point]; rfl) rfl (by simp) (by simp [keepsToken, point])
  · rename_i e point found
    obtain rfl := Option.some.inj read
    rw [watch_false (by rw [setPoint_self]; rfl)]
    cases due : s.due (requests i).key with
    | true =>
      exact .takes i .execute _ rfl (by rw [point]; rfl) rfl (by simp) (by simp [keepsToken, point])
    | false =>
      exact .goes _ i _ _ rfl (by rw [point]; rfl) rfl (by simp) (by simp [keepsToken, point])
  · rename_i point missing
    obtain rfl := Option.some.inj read
    rw [(not_due_of_missing missing).1, watch_false (by rw [setPoint_self]; rfl)]
    exact .goes _ i _ _ rfl (by rw [point]; rfl) rfl (by simp)
      (by simp [keepsToken, point, missing])
  · rename_i e point found
    obtain rfl := Option.some.inj read
    cases due : s.due (requests i).key with
    | true =>
      rw [watch_false (by rw [deserted_of_due due, Bool.and_false])]
      exact .drops i e _ rfl (by simp [keepsToken, point, found, due])
    | false =>
      rw [setPoint_self]
      exact .serves i e _ rfl (.inr point) (by simp [keepsToken, point, found, due])
  · cases read

theorem step_transition (taken : step requests s a = some t) : Transition requests s a t := by
  cases a with
  | read i =>
    obtain ⟨c, read, rfl⟩ := Option.map_eq_some_iff.mp taken
    unfold readStep at read
    cases prepared : (requests i).prepared with
    | true =>
      rw [prepared, if_pos rfl] at read
      exact lookup_transition prepared read
    | false =>
      rw [prepared, if_neg (by decide)] at read
      exact read_transition prepared read
  | arrive i =>
    simp only [step, Option.map_eq_some_iff] at taken
    obtain ⟨c, taken, rfl⟩ := taken
    simp only [cacheStep, QueryCache.step] at taken
    split_ifs at taken with enters
    obtain rfl := Option.some.inj taken
    exact .goes _ i _ _ rfl (by rw [enters.1]; rfl) rfl (fun _ => enters.1) rfl
  | loadOrStore i =>
    simp only [step, Option.map_eq_some_iff] at taken
    obtain ⟨c, taken, rfl⟩ := taken
    simp only [cacheStep, QueryCache.step, loadOrStoreStep] at taken
    split_ifs at taken with point
    split at taken
    · obtain rfl := Option.some.inj taken
      exact .goes _ i _ _ rfl (by rw [point]; rfl) rfl (by simp) rfl
    · obtain rfl := Option.some.inj taken
      exact .goes _ i _ _ rfl (by rw [point]; rfl) rfl (by simp) rfl
  | wake i =>
    simp only [step, Option.map_eq_some_iff] at taken
    obtain ⟨c, taken, rfl⟩ := taken
    simp only [cacheStep, QueryCache.step] at taken
    split at taken
    · rename_i f point
      split_ifs at taken
      obtain rfl := Option.some.inj taken
      exact .goes _ i _ _ rfl (by rw [point]; rfl) rfl (by simp) rfl
    · cases taken
  | timeout i =>
    simp only [step, Option.map_eq_some_iff] at taken
    obtain ⟨c, taken, rfl⟩ := taken
    simp only [cacheStep, QueryCache.step] at taken
    split at taken
    · rename_i f point
      obtain rfl := Option.some.inj taken
      exact .goes _ i _ _ rfl (by rw [point]; rfl) rfl (by simp) rfl
    · cases taken
  | respond i response =>
    simp only [step, Option.map_eq_some_iff] at taken
    obtain ⟨c, taken, rfl⟩ := taken
    simp only [cacheStep, QueryCache.step] at taken
    split_ifs at taken with point kept
    · obtain rfl := Option.some.inj taken
      exact .answers _ i .notify _ _ rfl (.inl rfl) point rfl
    · obtain rfl := Option.some.inj taken
      exact .answers _ i .notify _ _ rfl (.inl rfl) point rfl
  | notify i =>
    simp only [step, Option.map_eq_some_iff] at taken
    obtain ⟨c, taken, rfl⟩ := taken
    simp only [cacheStep, QueryCache.step] at taken
    split_ifs at taken with point
    obtain rfl := Option.some.inj taken
    exact .ends _ i _ (moves_endFlight _) rfl
  | fail i =>
    simp only [step, Option.map_eq_some_iff] at taken
    obtain ⟨c, taken, rfl⟩ := taken
    simp only [cacheStep, QueryCache.step] at taken
    split_ifs at taken with point
    obtain rfl := Option.some.inj taken
    exact .ends _ i _ (moves_endFlight _) rfl
  | localInfile i =>
    simp only [step, Option.map_eq_some_iff] at taken
    obtain ⟨c, taken, rfl⟩ := taken
    simp only [cacheStep, QueryCache.step] at taken
    split_ifs at taken with point
    obtain rfl := Option.some.inj taken
    exact .answers _ i .finished _ false rfl (.inr rfl) point.1 (by simp [keepsToken])
  | soften key =>
    simp only [step] at taken
    split_ifs at taken with fresh
    obtain rfl := Option.some.inj taken
    exact .ages _ _ _ rfl rfl
  | expire key =>
    simp only [step, Option.map_eq_some_iff] at taken
    obtain ⟨c, taken, rfl⟩ := taken
    obtain rfl := Option.some.inj taken
    exact .ages _ _ s.ledger.phase rfl rfl

/-! ### Tokens and their holders -/

/-- A request has no token before its first lookup, and no answer while it is on its way. -/
structure Tracked (s : State) : Prop where
  unread : ∀ i, s.cache.points i = .absent ∨ s.cache.points i = .get → s.ledger.token i = false
  waiting : ∀ i, Point.pending (s.cache.points i) = true → s.ledger.answered i = false

theorem tracked_start : Tracked {} := by
  constructor <;> simp

theorem used_start : Used {} := by
  constructor <;> simp

/-- One request moves, and the notes of the others stay as they were. -/
theorem Tracked.move {l : Ledger} (tracked : Tracked s) (moves : Moves s i p c)
    (token : ∀ j, j ≠ i → l.token j = s.ledger.token j)
    (answered : ∀ j, j ≠ i → l.answered j = s.ledger.answered j)
    (unread : p = .absent ∨ p = .get → l.token i = false)
    (waiting : Point.pending p = true → l.answered i = false) : Tracked ⟨c, l⟩ where
  unread j point := by
    by_cases same : j = i
    · subst same
      exact unread (by rwa [← moves.self])
    · rw [token j same]
      exact tracked.unread j (by rwa [← moves.other same])
  waiting j pending := by
    by_cases same : j = i
    · subst same
      exact waiting (by rwa [← moves.self])
    · rw [answered j same]
      exact tracked.waiting j (by rwa [← moves.other same])

theorem watch_rest (l : Ledger) (lapse : Bool) :
    (l.watch lapse).token = l.token ∧ (l.watch lapse).answered = l.answered ∧
      (l.watch lapse).stored = l.stored ∧ (l.watch lapse).unattended = (l.unattended || lapse) := by
  cases lapse <;> simp [Ledger.watch]

theorem tracked_step (tracked : Tracked s) (tr : Transition requests s a t) : Tracked t := by
  cases tr with
  | goes a i p c moves before after first =>
    exact tracked.move moves (fun _ _ => rfl) (fun _ _ => rfl)
      (fun early => tracked.unread i (.inl (first early))) fun _ => tracked.waiting i before
  | takes i p c moves before after read =>
    refine tracked.move moves (fun j other => Function.update_of_ne other ..) (fun _ _ => rfl)
      (fun early => (early.elim read.1 read.2).elim) fun _ => tracked.waiting i before
  | drops i e c moves =>
    exact tracked.move moves (fun j other => Function.update_of_ne other ..) (fun _ _ => rfl)
      nofun nofun
  | serves i e c moves =>
    obtain ⟨token, answered, -, -⟩ := watch_rest s.ledger (s.deserted (requests i).key)
    exact tracked.move moves (fun j _ => by rw [token]) (fun j _ => by rw [answered]) nofun nofun
  | answers a i p c kept moves ends =>
    refine tracked.move moves (fun _ _ => rfl) (fun j other => Function.update_of_ne other ..) ?_ ?_
    · rcases ends with rfl | rfl <;> nofun
    · rcases ends with rfl | rfl <;> nofun
  | ends a i c moves => exact tracked.move moves (fun _ _ => rfl) (fun _ _ => rfl) nofun nofun
  | ages a c phase points =>
    exact ⟨fun j point => tracked.unread j (by rwa [← points]),
      fun j pending => tracked.waiting j (by rwa [← points])⟩

/-! ### Which steps keep the tokens in use -/

/-- One request moves, and the notes of the others stay as they were. -/
theorem Used.move {l : Ledger} (used : Used s) (moves : Moves s i p c)
    (token : ∀ j, j ≠ i → l.token j = s.ledger.token j)
    (answered : ∀ j, j ≠ i → l.answered j = s.ledger.answered j)
    (stored : ∀ j, j ≠ i → l.stored j = s.ledger.stored j)
    (queries : ∀ e, p = .served e → l.token i = false)
    (stores : l.token i = true → l.answered i = true → l.stored i = true)
    (attended : l.unattended = false) : Used ⟨c, l⟩ where
  queries j e held point := by
    by_cases same : j = i
    · subst same
      have none := queries e (moves.self.symm.trans point)
      exact absurd (held.symm.trans none) nofun
    · exact used.queries j e (by rwa [← token j same]) (by rwa [← moves.other same])
  stores j held told := by
    by_cases same : j = i
    · subst same
      exact stores held told
    · rw [stored j same]
      exact used.stores j (by rwa [← token j same]) (by rwa [← answered j same])
  attended := attended

theorem used_step_iff (tracked : Tracked s) (used : Used s) (tr : Transition requests s a t) :
    Used t ↔ keepsToken requests s a = true := by
  cases tr with
  | goes a i p c moves before after first keeps =>
    refine ⟨fun _ => keeps, fun _ => used.move moves (fun _ _ => rfl) (fun _ _ => rfl)
      (fun _ _ => rfl) ?_ (used.stores i) used.attended⟩
    rintro e rfl
    cases after
  | takes i p c moves before after read keeps =>
    refine ⟨fun _ => keeps, fun _ => used.move moves (fun j other => Function.update_of_ne other ..)
      (fun _ _ => rfl) (fun _ _ => rfl) ?_ ?_ used.attended⟩
    · rintro e rfl
      cases after
    · intro _ told
      exact absurd (told.symm.trans (tracked.waiting i before)) nofun
  | drops i e c moves loses =>
    refine ⟨fun after => ?_, fun keeps => by rw [loses] at keeps; cases keeps⟩
    exact absurd moves.self (after.queries i e (by simp [Ledger.hand]))
  | serves i e c moves point keeps =>
    obtain ⟨token, answered, stored, unattended⟩ :=
      watch_rest s.ledger (s.deserted (requests i).key)
    rw [keeps]
    constructor
    · intro after
      have lapse := after.attended
      dsimp only at lapse
      rw [unattended, used.attended, Bool.false_or] at lapse
      refine ⟨fun _ => ?_, lapse⟩
      by_contra held
      exact after.queries i e (by rw [token]; simpa using held) moves.self
    · rintro ⟨none, lapse⟩
      refine used.move moves (fun j _ => by rw [token]) (fun j _ => by rw [answered])
        (fun j _ => by rw [stored]) (fun _ _ => ?_) ?_ ?_
      · rw [token]
        exact point.elim (fun first => tracked.unread i (.inr first)) none
      · rw [token, answered, stored]
        exact used.stores i
      · rw [unattended, used.attended, lapse]
        rfl
  | answers a i p c kept moves ends point keeps =>
    rw [keeps]
    constructor
    · intro after
      cases held : s.ledger.token i with
      | false => rfl
      | true =>
        have stored := after.stores i held (by simp [Ledger.answer])
        simpa [Ledger.answer] using stored
    · intro kept
      refine used.move moves (fun _ _ => rfl) (fun j other => Function.update_of_ne other ..)
        (fun j other => Function.update_of_ne other ..) ?_ ?_ used.attended
      · rcases ends with rfl | rfl <;> nofun
      · intro held _
        have held : s.ledger.token i = true := held
        rw [held] at kept
        simpa [Ledger.answer] using kept
  | ends a i c moves keeps =>
    exact ⟨fun _ => keeps, fun _ => used.move moves (fun _ _ => rfl) (fun _ _ => rfl)
      (fun _ _ => rfl) nofun (used.stores i) used.attended⟩
  | ages a c phase points keeps =>
    refine ⟨fun _ => keeps, fun _ => ⟨fun j e held point => ?_, used.stores, used.attended⟩⟩
    exact used.queries j e held (by rwa [← points])

/-- Every token is used, and no value past its TTL is served unattended, exactly when each
step keeps the tokens in use. -/
theorem refresh_tokens_used_iff {requests : RequestId → Request} {s : State} (as : List Action)
    (run : replay (step requests) {} as = some s) :
    Always (step requests) Used {} as ↔
      replay (checked (step requests) (keepsToken requests)) {} as = some s :=
  always_iff_checked (Q := Tracked)
    (fun _ _ _ tracked taken => tracked_step tracked (step_transition taken))
    (fun _ _ _ tracked used taken => used_step_iff tracked used (step_transition taken))
    tracked_start used_start as run

/-! ### An entry past its TTL -/

def executions (protocol : Protocol) (_ : RequestId) : Request where
  statement := ⟨protocol, lit "shop", parse (lit "/* ttl:60 */ SELECT a FROM t WHERE b = ?")⟩
  digest := some (lit "ps:1f")

/-- The first one fills the cache, the entry grows old and the second one finds it. -/
def softened : List Action :=
  [.arrive 0, .read 0, .respond 0 [1], .notify 0, .soften (lit "ps:1f"), .arrive 1, .read 1]

/-- The PostgreSQL proxy refreshes it, and serves the old value to a third one meanwhile. -/
def refreshed : List Action := softened ++ [.arrive 2, .read 2, .respond 1 [2], .notify 1]

theorem refresh_tokens_used_postgres :
    ∃ s, replay (step (executions .postgres)) {} refreshed = some s ∧
      Always (step (executions .postgres)) Used {} refreshed := by
  have passed :
    (replay (checked (step (executions .postgres)) (keepsToken (executions .postgres))) {}
      refreshed).isSome =
      true := by decide +kernel
  obtain ⟨s, kept⟩ := Option.isSome_iff_exists.mp passed
  have run := replay_of_checked _ kept
  exact ⟨s, run, (refresh_tokens_used_iff _ run).mpr kept⟩

/-- The MariaDB proxy serves the old value to the second one, which had the token, and to
the third one, when no request is at work any more. -/
theorem refresh_token_dropped :
    (replay (step (executions .mariadb)) {} (softened ++ [.arrive 2, .read 2])).map
      (fun s => (s.ledger.token 1, s.cache.points 1, s.ledger.phase (lit "ps:1f"), s.cache.points 2,
        s.ledger.unattended)) =
    some (true, .served ⟨[1], 0⟩, .handed 1, .served ⟨[1], 0⟩, true) := by
  decide +kernel

end TQDBProxy.RefreshTokens
