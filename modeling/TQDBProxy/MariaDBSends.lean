import TQDBProxy.MariaDBMoves

/-! What a step of a MariaDB client connection sends to the backend. A step routes its
command, sends at most one command on the connection it then has, and afterwards does
nothing to the connection but lose it. -/

namespace TQDBProxy.MariaDB

open TQDBProxy.Parser SqlTokens

/-- Events that tell which connections there are and what was sent on them. -/
def wired : Event → Bool
  | .dialed .. | .sent .. => true
  | _ => false

/-- The part of a session that its connection and its statements are in. -/
def Session.core (s : Session) :
    Option Nat × GoString × GoString × GoString × Nat × List (Nat × ParsedQuery) ×
      List (Nat × Nat × GoString) × Bool × Bool × List Event :=
  (s.backend, s.backendPool, s.backendAddr, s.db, s.dialled, s.preparedStatements,
    s.serverStatements, s.panicked, s.mislabelled, s.events.filter wired)

def Session.fresh (s : Session) : Session := { s with events := [] }

/-- A property that looks at the core only and survives the panic on a label, and the loss
of the connection of a session that has not panicked. -/
structure Stable (P : Session → Prop) : Prop where
  congr : ∀ s t, P s → t.core = s.core → P t
  mislabel : ∀ s, P s → P s.mislabel
  lost : ∀ s, s.panicked = false → P s → P s.resetBackend

section Core

variable {s t : Session}

theorem core_note {e : Event} (other : wired e = false) : (s.note e).core = s.core := by
  simp [Session.core, Session.note, other]

theorem core_noteWrite (parsed : ParsedQuery) (arrived : Option Nat) :
    (noteWrite parsed arrived s).core = s.core := by
  unfold noteWrite
  split
  · split
    · exact core_note rfl
    · rfl
  · rfl

theorem core_cancelInflight {parsed : ParsedQuery} : (cancelInflight parsed s).core = s.core := by
  unfold cancelInflight
  split
  · exact core_note rfl
  · rfl

theorem core_storeResult {key : CacheKey} {ttl : Nat} : (storeResult key ttl s).core = s.core := by
  unfold storeResult
  split
  · exact core_note rfl
  · rfl

theorem core_hit {name : String} {key : CacheKey} : (hit name key s).core = s.core :=
  core_note (e := .served s.inTransaction key) rfl

theorem core_answered {name : GoString} : (answered name s).core = s.core := rfl

theorem core_switchTo (addr name pool : GoString) :
    (s.switchTo addr name pool).core =
      (some s.dialled, pool, addr, s.db, s.dialled + 1, s.preparedStatements, s.serverStatements,
        s.panicked, s.mislabelled, .dialed s.dialled addr s.db :: s.events.filter wired) := by
  unfold Session.switchTo Session.closeBackend
  split <;> simp [Session.core, Session.note, List.filter_cons, wired]

theorem core_resetBackend :
    s.resetBackend.core = (none, s.backendPool, [], s.db, s.dialled, s.preparedStatements,
      s.serverStatements, s.panicked, s.mislabelled, s.events.filter wired) := by
  unfold Session.resetBackend Session.closeBackend
  split <;> simp [Session.core, Session.note, wired]

structure SameCore (t s : Session) : Prop where
  backend : t.backend = s.backend
  pool : t.backendPool = s.backendPool
  addr : t.backendAddr = s.backendAddr
  db : t.db = s.db
  dialled : t.dialled = s.dialled
  prepared : t.preparedStatements = s.preparedStatements
  server : t.serverStatements = s.serverStatements
  panicked : t.panicked = s.panicked
  mislabelled : t.mislabelled = s.mislabelled
  events : t.events.filter wired = s.events.filter wired

theorem same_core (same : t.core = s.core) : SameCore t s := by
  simp only [Session.core, Prod.mk.injEq] at same
  obtain ⟨backend, pool, addr, db, dialled, prepared, server, panicked, label, events⟩ := same
  exact ⟨backend, pool, addr, db, dialled, prepared, server, panicked, label, events⟩

theorem sent_filter {events : List Event} {b : Option Nat} {conn : Nat} {c : Command} :
    .sent b conn c ∈ events.filter wired ↔ .sent b conn c ∈ events := by
  simp [wired]

/-- A new connection is the current one and the last in the log. -/
structure Switched (target shard : GoString) (s t : Session) : Prop where
  backend : t.backend = some s.dialled
  pool : t.backendPool = shard
  addr : t.backendAddr = target
  db : t.db = s.db
  dialled : t.dialled = s.dialled + 1
  prepared : t.preparedStatements = s.preparedStatements
  server : t.serverStatements = s.serverStatements
  panicked : t.panicked = s.panicked
  events : t.events.filter wired = .dialed s.dialled target s.db :: s.events.filter wired

theorem switched {addr name pool : GoString} (core : t.core = (s.switchTo addr name pool).core) :
    Switched addr pool s t := by
  rw [core_switchTo] at core
  simp only [Session.core, Prod.mk.injEq] at core
  obtain ⟨backend, pool, addr, db, dialled, prepared, server, panicked, -, events⟩ := core
  exact ⟨backend, pool, addr, db, dialled, prepared, server, panicked, events⟩

end Core

theorem statusQuery_select (cfg : ProxyConfig) (s : Session) :
    ∃ rest, statusQuery cfg s = lit "SELECT '" ++ rest := by
  unfold statusQuery
  dsimp only
  split_ifs <;> simp only [List.append_assoc] <;> exact ⟨_, rfl⟩

inductive Connects (w : World) (addr name pool : GoString) (s t : Session) : Prop where
  | current : addr = s.backendAddr → s.backend.isSome = true → t.core = s.core →
      Connects w addr name pool s t
  | dialled : w.dial addr = true → t.core = (s.switchTo addr name pool).core →
      Connects w addr name pool s t

inductive Routes (cfg : ProxyConfig) (w : World) (db : GoString) (s t : Session) : Prop where
  | here (pool : Pool) : cfg.pools (cfg.shardName db) = some pool →
      cfg.shardName db = s.backendPool →
      s.backend.isSome = true → t.core = s.core → Routes cfg w db s t
  | there (pool : Pool) : cfg.pools (cfg.shardName db) = some pool →
      Connects w pool.getPrimary (lit "primary") (cfg.shardName db) s t → Routes cfg w db s t

inductive Qualifies (cfg : ProxyConfig) (w : World) (parsed : ParsedQuery) (s t : Session) :
    Prop where
  | plain : parsed.db = [] ∨ parsed.db = s.db → t.core = s.core → Qualifies cfg w parsed s t
  | shard (u : Session) : parsed.db ≠ [] → parsed.db ≠ s.db → Routes cfg w parsed.db s u →
      t.core = { u with db := parsed.db }.core → Qualifies cfg w parsed s t

def controlText : Kind → Option GoString
  | .begin => some (lit "BEGIN")
  | .commit => some (lit "COMMIT")
  | .rollback => some (lit "ROLLBACK")
  | _ => none

/-- The command of a statement, and the session in which it is sent. -/
inductive StatementSends (cfg : ProxyConfig) (w : World) (parsed : ParsedQuery) (s : Session) :
    Command → Session → Prop where
  | use {dbName : GoString} {t u : Session} : statementKind parsed.query = .use dbName →
      Routes cfg w dbName s t → u.core = { t with db := dbName }.core →
      StatementSends cfg w parsed s (.query (useStatement dbName)) u
  | control {text : GoString} : controlText (statementKind parsed.query) = some text →
      StatementSends cfg w parsed s (.query text) s
  | status {t : Session} : statementKind parsed.query = .status → Routes cfg w [] s t →
      StatementSends cfg w parsed s (.query (statusQuery cfg t)) t
  | execute {pool : Pool} {addr name : GoString} {t : Session} :
      statementKind parsed.query = .other → cfg.pools s.backendPool = some pool →
      (addr = pool.getPrimary ∨
        parsed.isCacheable = true ∧ (addr, name) = (pool.getReplica w.replicas).1) →
      Connects w addr name s.backendPool s t → StatementSends cfg w parsed s (.query parsed.query) t

def forgetStatement (data : List UInt8) (s : Session) : Session :=
  if 4 ≤ data.length then
    { s with preparedStatements := s.preparedStatements.filter (·.1 != stmtID data) }
  else s

/-- The command that a step sends, and the session in which it is sent. -/
inductive Sends (cfg : ProxyConfig) (w : World) (s : Session) :
    Input → Command → Session → Prop where
  | initDB {dbName : GoString} {t u : Session} : Routes cfg w dbName s t →
      u.core = { t with db := dbName }.core →
      Sends cfg w s (.initDB dbName) (.query (useStatement dbName)) u
  | statement {query : GoString} {rest : List GoString} {t u : Session} {c : Command} :
      s.pending = query :: rest → Qualifies cfg w (statementParsed query s.original) s t →
      StatementSends cfg w (statementParsed query s.original) t c u →
      Sends cfg w s .nextStatement c u
  | prepare {query : GoString} : Sends cfg w s (.stmtPrepare query) (.stmtPrepare query) s
  | execute {data : List UInt8} {u : Session} : (preparedFor s data).isSome = true →
      u.core = s.core →
      Sends cfg w s (.stmtExecute data) (.stmtExecute data) u
  | close {data : List UInt8} :
      Sends cfg w s (.stmtClose data) (.stmtClose data) (forgetStatement data s)
  | reset {data : List UInt8} : Sends cfg w s (.stmtReset data) (.stmtReset data) s

def rememberStatement (query : GoString) (response : List UInt8) (s : Session) : Session :=
  let stmtID := Binary.littleEndian ((response.drop 1).take 4)
  { s with
    preparedStatements := (stmtID, parse query) :: s.preparedStatements
    serverStatements := (s.backend.getD 0, stmtID, query) :: s.serverStatements }

/-- Where a step panics but for the use of a missing connection. -/
inductive Crashes (cfg : ProxyConfig) (w : World) (s : Session) : Input → Session → Prop where
  | noPool {query : GoString} {rest : List GoString} {t : Session} : s.pending = query :: rest →
      Qualifies cfg w (statementParsed query s.original) s t → cfg.pools t.backendPool = none →
      Crashes cfg w s .nextStatement t
  | shortAnswer {query : GoString} {response : List UInt8} {t : Session} :
      exchange w (.stmtPrepare query) s = (some response, t) →
        Crashes cfg w s (.stmtPrepare query) t
  | params {data : List UInt8} : (preparedFor s data).isSome = true →
      Crashes cfg w s (.stmtExecute data) s

section Routing

variable {cfg : ProxyConfig} {w : World} {s t u : Session} {parsed : ParsedQuery}
  {addr name pool db : GoString} {e : Failure}

theorem Connects.congr (connects : Connects w addr name pool s t) (same : u.core = t.core) :
    Connects w addr name pool s u := by
  cases connects with
  | current near some core => exact .current near some (same.trans core)
  | dialled dial core => exact .dialled dial (same.trans core)

theorem Connects.start (connects : Connects w addr name pool u t) (same : u.core = s.core) :
    Connects w addr name pool s t := by
  have fields := same_core same
  cases connects with
  | current here some core =>
    exact .current (fields.addr ▸ here) (fields.backend ▸ some) (core.trans same)
  | dialled dial core =>
    refine .dialled dial (core.trans ?_)
    simp only [core_switchTo, fields.db, fields.dialled, fields.prepared, fields.server,
      fields.panicked, fields.mislabelled, fields.events]

theorem Connects.connected (connects : Connects w addr name pool s t) :
    t.backend.isSome = true ∧ t.backendAddr = addr := by
  cases connects with
  | current near some core =>
    exact ⟨by rw [(same_core core).backend, some], by rw [(same_core core).addr, near]⟩
  | dialled _ core => exact ⟨by rw [(switched core).backend]; rfl, (switched core).addr⟩

theorem Connects.panicked (connects : Connects w addr name pool s t) : t.panicked = s.panicked := by
  cases connects with
  | current _ _ core => exact (same_core core).panicked
  | dialled _ core => exact (switched core).panicked

theorem Routes.start (routes : Routes cfg w db u t) (same : u.core = s.core) :
    Routes cfg w db s t := by
  have fields := same_core same
  cases routes with
  | here pool found here some core =>
    exact .here pool found (fields.pool ▸ here) (fields.backend ▸ some) (core.trans same)
  | there pool found connects => exact .there pool found (connects.start same)

theorem Routes.connected (routes : Routes cfg w db s t) : t.backend.isSome = true := by
  cases routes with
  | here _ _ _ some core => rw [(same_core core).backend, some]
  | there _ _ connects => exact connects.connected.1

theorem Routes.panicked (routes : Routes cfg w db s t) : t.panicked = s.panicked := by
  cases routes with
  | here _ _ _ _ core => exact (same_core core).panicked
  | there _ _ connects => exact connects.panicked

theorem connects_of_ensureBackendConn (made : ensureBackendConn w addr name pool s = (none, t)) :
    Connects w addr name pool s t := by
  unfold ensureBackendConn at made
  split at made
  · rename_i here
    cases made
    exact .current here.1 here.2 rfl
  · split at made
    · rename_i dial
      cases made
      exact .dialled dial rfl
    · cases made

theorem ensureBackendConn_failed (made : ensureBackendConn w addr name pool s = (some e, t)) :
    t = s := by
  unfold ensureBackendConn at made
  split at made
  · cases made
  · split at made
    · cases made
    · cases made
      rfl

theorem routes_of_ensureBackend (made : ensureBackend cfg w db s = (none, t)) :
    Routes cfg w db s t := by
  unfold ensureBackend at made
  dsimp only at made
  split at made
  · cases made
  · rename_i pool found
    split at made
    · rename_i here
      cases made
      exact .here pool found here.1 here.2 rfl
    · exact .there pool found ((connects_of_ensureBackendConn made).start rfl)

theorem ensureBackend_failed (made : ensureBackend cfg w db s = (some e, t)) : t.core = s.core := by
  unfold ensureBackend at made
  dsimp only at made
  split at made
  · cases made
    rfl
  · split at made
    · cases made
    · rw [ensureBackendConn_failed made]
      rfl

theorem qualifies_of_routeQualified (made : routeQualified cfg w parsed s = (none, t)) :
    Qualifies cfg w parsed s t := by
  unfold routeQualified at made
  split at made
  · rename_i qualified
    split at made
    · cases made
    · rename_i u routed
      cases made
      exact .shard u qualified.1 qualified.2 (routes_of_ensureBackend routed) rfl
  · rename_i plain
    cases made
    refine .plain ?_ rfl
    by_contra neither
    exact plain (not_or.mp neither)

theorem routeQualified_failed (made : routeQualified cfg w parsed s = (some e, t)) :
    t.core = s.core := by
  unfold routeQualified at made
  split at made
  · split at made
    · rename_i failed
      cases made
      exact ensureBackend_failed failed
    · cases made
  · cases made

theorem Qualifies.start (qualifies : Qualifies cfg w parsed u t) (same : u.core = s.core) :
    Qualifies cfg w parsed s t := by
  have db := (same_core same).db
  cases qualifies with
  | plain here core => exact .plain (db ▸ here) (core.trans same)
  | shard v named away routes core => exact .shard v named (db ▸ away) (routes.start same) core

theorem Qualifies.panicked (qualifies : Qualifies cfg w parsed s t) : t.panicked = s.panicked := by
  cases qualifies with
  | plain _ core => exact (same_core core).panicked
  | shard u _ _ routes core => exact (same_core core).panicked.trans routes.panicked

theorem exchange_panicked {c : Command} {response : List UInt8}
    (made : exchange w c s = (some response, t)) : t.panicked = s.panicked := by
  unfold exchange at made
  split at made
  · cases made
  · dsimp only at made
    split at made
    · cases made
    · cases made
      rfl

theorem exchange_reply {c : Command} {response : List UInt8}
    (made : exchange w c s = (some response, t)) :
    w.reply = some response := by
  unfold exchange at made
  split at made
  · cases made
  · dsimp only at made
    split at made
    · cases made
    · rename_i reply
      cases made
      exact reply

theorem exchange_statements {c : Command} :
    (exchange w c s).2.serverStatements = s.serverStatements ∧
      (exchange w c s).2.preparedStatements = s.preparedStatements := by
  unfold exchange Session.resetBackend Session.closeBackend
  split
  · exact ⟨rfl, rfl⟩
  · dsimp only
    split
    · split <;> exact ⟨rfl, rfl⟩
    · exact ⟨rfl, rfl⟩

theorem step_alive {a : Input × World} (taken : step cfg s a = some t) : s.panicked = false := by
  unfold step at taken
  split at taken
  · cases taken
  · rename_i running
    simpa using running

end Routing

section Handlers

variable {P : Session → Prop} {cfg : ProxyConfig} {w : World} {s t : Session} {parsed : ParsedQuery}
  {arrived : Option Nat}

theorem relay_rule {c : Command} (sent : P (MariaDB.exchange w c s).2) : P (relay w c s).2 := by
  unfold MariaDB.relay
  split <;> rename_i made <;> rw [made] at sent <;> exact sent

theorem handleStmtClose_rule {data : List UInt8}
    (sent : P (MariaDB.exchange w (.stmtClose data) (forgetStatement data s)).2) :
    P (handleStmtClose w data s).2 := by
  unfold forgetStatement at sent
  unfold MariaDB.handleStmtClose
  dsimp only
  split <;> rename_i made <;> rw [made] at sent <;> exact sent

variable (stable : Stable P)
include stable

theorem Stable.exchange {c : Command} (missing : s.backend = none → P s.crash)
    (lost : ∀ conn, s.backend = some conn → w.reply = none →
      P (s.note (.sent s.begun conn c)).resetBackend)
    (sent : ∀ conn, s.backend = some conn → w.reply.isSome = true →
      P (s.note (.sent s.begun conn c))) : P (exchange w c s).2 := by
  unfold MariaDB.exchange
  split
  · exact missing ‹_›
  · rename_i conn current
    dsimp only
    split
    · exact lost conn current ‹_›
    · rename_i answer
      exact stable.congr _ _ (sent conn current (by rw [answer]; rfl)) rfl

theorem Stable.handleUse {dbName : GoString} (start : P s)
    (sends : ∀ t, Routes cfg w dbName s t →
      P (MariaDB.exchange w (.query (useStatement dbName)) { t with db := dbName }).2) :
    P (handleUse cfg w dbName s).2 := by
  unfold MariaDB.handleUse
  split
  · rename_i failed
    exact stable.congr s _ start (ensureBackend_failed failed)
  · rename_i made
    exact relay_rule (sends _ (routes_of_ensureBackend made))

theorem Stable.handleBegin (sent : P (MariaDB.exchange w (.query (lit "BEGIN")) s).2) :
    P (handleBegin w s).2 := by
  unfold MariaDB.handleBegin
  split <;> rename_i made <;> rw [made] at sent
  · exact sent
  · exact stable.congr _ _ sent rfl

theorem Stable.finishTransaction {text : String}
    (sent : P (MariaDB.exchange w (.query (lit text)) s).2) : P (finishTransaction text w s).2 := by
  unfold MariaDB.finishTransaction
  split <;> rename_i made <;> rw [made] at sent
  · exact sent
  · exact stable.congr _ _ sent rfl

theorem Stable.handleShowTQDBStatus (start : P s)
    (sends : ∀ t, Routes cfg w [] s t → P (MariaDB.exchange w (.query (statusQuery cfg t)) t).2) :
    P (handleShowTQDBStatus cfg w s).2 := by
  unfold MariaDB.handleShowTQDBStatus
  split
  · rename_i failed
    exact stable.congr s _ start (ensureBackend_failed failed)
  · rename_i made
    exact relay_rule (sends _ (routes_of_ensureBackend made))

theorem Stable.handleLocalInfile (alive : s.panicked = false) (held : P s) :
    P (handleLocalInfile w s).2 := by
  unfold MariaDB.handleLocalInfile
  split
  · exact held
  · exact stable.lost s alive held
  · exact held

theorem Stable.executeImmediateWrite {query : GoString} (start : P s)
    (noPool : cfg.pools s.backendPool = none → P s.crash)
    (sends : ∀ pool t, cfg.pools s.backendPool = some pool →
      Connects w pool.getPrimary (lit "primary") s.backendPool s t →
        P (MariaDB.exchange w (.query query) t).2) :
    P (executeImmediateWrite cfg w query s).2 := by
  unfold MariaDB.executeImmediateWrite
  split
  · exact noPool ‹_›
  · rename_i pool found
    split
    · rename_i failed
      rw [ensureBackendConn_failed failed]
      exact start
    · rename_i made
      have sent := sends pool _ found (connects_of_ensureBackendConn made)
      split <;> rename_i exchanged <;> rw [exchanged] at sent
      · exact sent
      · exact stable.congr _ _ sent rfl

theorem Stable.handleBatchedWrite {query file : GoString} {batchMs : Nat} (start : P s)
    (noPool : cfg.pools s.backendPool = none → P s.crash)
    (sends : ∀ pool t, cfg.pools s.backendPool = some pool →
      Connects w pool.getPrimary (lit "primary") s.backendPool s t →
        P (MariaDB.exchange w (.query query) t).2) :
    P (handleBatchedWrite cfg w query batchMs file arrived s).2 := by
  unfold MariaDB.handleBatchedWrite
  dsimp only
  -- The two notes on the log leave the core as it was.
  have noted : ((s.note (.write arrived .manager)).note
      (.enqueued s.db (parse query).getBatchKey query [] batchMs)).core = s.core :=
    (core_note rfl).trans (core_note rfl)
  have held := stable.congr s _ start noted
  split
  · exact stable.mislabel _ held
  split
  · exact stable.congr _ _ held rfl
  · split
    · refine stable.executeImmediateWrite held (fun missing => ?_) fun pool t found connects => ?_
      · refine stable.congr _ _ (noPool missing) ?_
        simp [Session.core, Session.crash, Session.note, wired]
      · exact sends pool t found (connects.start noted)
    · exact held

theorem Stable.forwardQuery (alive : s.panicked = false) (start : P s)
    (noPool : cfg.pools s.backendPool = none → P s.crash)
    (sends : ∀ pool t, cfg.pools s.backendPool = some pool →
      Connects w (selectBackend w pool parsed s).1 (selectBackend w pool parsed s).2 s.backendPool
        s t →
        P (MariaDB.exchange w (.query parsed.query) t).2) :
    P (forwardQuery cfg w parsed arrived s).2 := by
  unfold MariaDB.forwardQuery
  split
  · exact noPool ‹_›
  · rename_i pool found
    dsimp only
    split
    · rename_i failed
      rw [ensureBackendConn_failed failed]
      exact stable.congr s _ start core_cancelInflight
    · rename_i made
      have connects := (connects_of_ensureBackendConn made).congr (core_noteWrite parsed arrived)
      have sent := sends pool _ found connects
      split
      · rename_i exchanged
        rw [exchanged] at sent
        exact stable.congr _ _ sent core_cancelInflight
      · rename_i exchanged
        rw [exchanged] at sent
        split
        · refine stable.handleLocalInfile ?_ sent
          rw [exchange_panicked exchanged, connects.panicked, alive]
        split
        · exact stable.mislabel _ sent
        · rw [writeClient_session]
          split
          · exact stable.congr _ _ sent (core_storeResult.trans core_answered)
          · exact stable.congr _ _ sent core_answered

theorem Stable.handleOther (alive : s.panicked = false) (start : P s)
    (noPool : cfg.pools s.backendPool = none → P s.crash)
    (sends : ∀ pool addr name t, cfg.pools s.backendPool = some pool →
      (addr = pool.getPrimary ∨
        parsed.isCacheable = true ∧ (addr, name) = (pool.getReplica w.replicas).1) →
      Connects w addr name s.backendPool s t → P (MariaDB.exchange w (.query parsed.query) t).2) :
    P (handleOther cfg w parsed arrived s).2 := by
  unfold MariaDB.handleOther
  split
  · exact stable.handleBatchedWrite start noPool fun pool t found =>
      sends pool _ _ t found (.inl rfl)
  split
  · exact stable.mislabel s start
  · split
    · rename_i served
      obtain ⟨-, name, rfl⟩ := serveCached_hit served
      exact stable.congr s _ start core_hit
    · refine stable.forwardQuery alive start noPool fun pool t found => sends pool _ _ t found ?_
      unfold selectBackend
      split
      · rename_i cacheable
        simp only [Bool.and_eq_true] at cacheable
        exact .inr ⟨cacheable.1, rfl⟩
      · exact .inl rfl

theorem Stable.handleKind (alive : s.panicked = false) (start : P s)
    (noPool : cfg.pools s.backendPool = none → P s.crash)
    (sends : ∀ c u, StatementSends cfg w parsed s c u → P (MariaDB.exchange w c u).2) :
    P (handleKind cfg w parsed arrived s).2 := by
  unfold MariaDB.handleKind
  split <;> rename_i kind
  · exact stable.handleUse start fun t routes => sends _ _ (.use kind routes rfl)
  · exact stable.handleBegin (sends _ _ (.control (by rw [kind]; rfl)))
  · exact stable.finishTransaction (sends _ _ (.control (by rw [kind]; rfl)))
  · exact stable.finishTransaction (sends _ _ (.control (by rw [kind]; rfl)))
  · exact stable.handleShowTQDBStatus start fun t routes => sends _ _ (.status kind routes)
  · exact stable.handleOther alive start noPool fun pool addr name t found choice connects =>
      sends _ _ (.execute kind found choice connects)

theorem Stable.nextStatement {query : GoString} {rest : List GoString} (alive : s.panicked = false)
    (start : P s)
    (routed : ∀ t, Qualifies cfg w (statementParsed query s.original) s t →
      P t ∧ (cfg.pools t.backendPool = none → P t.crash) ∧
        ∀ c u, StatementSends cfg w (statementParsed query s.original) t c u →
          P (MariaDB.exchange w c u).2) :
    P (nextStatement cfg w query rest s) := by
  have handled : P (handleSingleQuery cfg w query s.original { s with pending := rest }).2 := by
    unfold handleSingleQuery
    dsimp only
    split
    · rename_i failed
      exact stable.congr s _ start ((routeQualified_failed failed).trans rfl)
    · rename_i made
      have qualifies := (qualifies_of_routeQualified made).start (s := s) rfl
      obtain ⟨held, noPool, sends⟩ := routed _ qualifies
      exact stable.handleKind (qualifies.panicked.trans alive) held noPool sends
  unfold MariaDB.nextStatement
  split <;> rename_i made <;> rw [made] at handled
  · exact stable.congr _ _ handled rfl
  · exact handled

theorem Stable.handlePrepare {query : GoString} (alive : s.panicked = false)
    (sent : P (MariaDB.exchange w (.stmtPrepare query) s).2)
    (short : ∀ response t, MariaDB.exchange w (.stmtPrepare query) s = (some response, t) →
      P t.crash)
    (prepared : ∀ response t, MariaDB.exchange w (.stmtPrepare query) s = (some response, t) →
      response.head? = some 0 → P (rememberStatement query response t)) :
    P (handlePrepare w query s).2 := by
  unfold MariaDB.handlePrepare
  split
  · rename_i made
    rw [made] at sent
    exact sent
  · rename_i response t made
    split
    · rename_i ok
      split
      · exact short response t made
      · dsimp only
        split
        · exact stable.lost _ ((exchange_panicked made).trans alive) (prepared response t made ok)
        · exact prepared response t made ok
    · rw [made] at sent
      exact sent

theorem Stable.executePrepared {data : List UInt8} (alive : s.panicked = false) (start : P s)
    (sends : ∀ u, u.core = s.core → P (MariaDB.exchange w (.stmtExecute data) u).2) :
    P (executePrepared w parsed data s).2 := by
  unfold MariaDB.executePrepared servePrepared
  split
  · rename_i served
    split at served
    · cases served
      exact stable.congr s _ start core_hit
    · cases served
  · have sent := sends (noteWrite parsed s.openSession s) (core_noteWrite parsed s.openSession)
    split <;> rename_i made <;> rw [made] at sent
    · exact sent
    · split
      · refine stable.handleLocalInfile ?_ sent
        rw [exchange_panicked made, (same_core (core_noteWrite parsed s.openSession)).panicked,
          alive]
      · dsimp only
        rw [writeClient_session]
        split
        · exact stable.congr _ _ sent (core_answered.trans core_storeResult)
        · exact stable.congr _ _ sent core_answered

theorem Stable.handleBatchedPreparedExecute {data : List UInt8} {params : List Value} (start : P s)
    (sends : ∀ u, u.core = s.core → P (MariaDB.exchange w (.stmtExecute data) u).2) :
    P (handleBatchedPreparedExecute w data parsed params s).2 := by
  unfold MariaDB.handleBatchedPreparedExecute
  dsimp only
  have noted : ((s.note (.write s.openSession .manager)).note
      (.enqueued s.db parsed.getBatchKey parsed.query params parsed.batchMs)).core = s.core :=
    (core_note rfl).trans (core_note rfl)
  have held := stable.congr s _ start noted
  split
  · exact stable.mislabel _ held
  split
  · exact stable.congr _ _ held rfl
  · split
    · have sent := sends _ noted
      split <;> rename_i made <;> rw [made] at sent
      · exact sent
      · exact stable.congr _ _ sent rfl
    · exact held

theorem Stable.handleExecute {data : List UInt8} (alive : s.panicked = false) (start : P s)
    (params : (preparedFor s data).isSome = true → P s.crash)
    (sends : (preparedFor s data).isSome = true → ∀ u, u.core = s.core →
      P (MariaDB.exchange w (.stmtExecute data) u).2) :
    P (handleExecute w data s).2 := by
  unfold MariaDB.handleExecute
  split
  · exact start
  · split
    · exact start
    · rename_i id parsed found
      have known : (preparedFor s data).isSome = true := by simp [preparedFor, found]
      split
      · split
        · exact params known
        · exact stable.handleBatchedPreparedExecute start (sends known)
        · exact stable.executePrepared alive start (sends known)
      · exact stable.executePrepared alive start (sends known)

theorem Stable.step {input : Input} (start : P s)
    (routed : ∀ query rest t, input = .nextStatement → s.pending = query :: rest →
      Qualifies cfg w (statementParsed query s.original) s t → P t)
    (sends : ∀ c u, Sends cfg w s input c u → P (MariaDB.exchange w c u).2)
    (prepared : ∀ query response t, input = .stmtPrepare query →
      MariaDB.exchange w (.stmtPrepare query) s = (some response, t) → response.head? = some 0 →
        P (rememberStatement query response t))
    (crashes : ∀ t, Crashes cfg w s input t → P t.crash)
    (taken : step cfg s (input, w) = some t) : P t := by
  have alive : s.panicked = false := step_alive taken
  rcases step_cases taken with ⟨query, rest, waiting, next, rfl⟩ | ⟨text, rfl⟩ | rfl
  · obtain rfl : input = .nextStatement := next
    refine stable.nextStatement alive start fun t qualifies =>
      ⟨routed _ _ t rfl waiting qualifies, ?_, ?_⟩
    · exact fun missing => crashes t (.noPool waiting qualifies missing)
    · exact fun c u sent => sends c u (.statement waiting qualifies sent)
  · exact stable.congr s _ start rfl
  · cases input with
    | initDB dbName => exact stable.handleUse start fun t routes => sends _ _ (.initDB routes rfl)
    | stmtPrepare query =>
      refine stable.handlePrepare alive (sends _ _ .prepare) (fun response t made => ?_)
        fun response t => prepared query response t rfl
      exact crashes t (.shortAnswer made)
    | stmtExecute data =>
      refine stable.handleExecute alive start (fun known => crashes s (.params known)) ?_
      exact fun known u same => sends _ u (.execute known same)
    | stmtClose data => exact handleStmtClose_rule (sends _ _ .close)
    | stmtReset data => exact relay_rule (sends _ _ .reset)
    | quit | fieldList | ping | query | nextStatement | other => exact start

end Handlers

/-- A stable property that neither a panic nor a new prepared statement touches. -/
structure Wired (P : Session → Prop) : Prop extends Stable P where
  crash : ∀ s, P s → P s.crash
  record : ∀ query response s, P s → P (rememberStatement query response s)

theorem Wired.step {P : Session → Prop} {cfg : ProxyConfig} {w : World} {s t : Session}
    {input : Input} (wired : Wired P) (start : P s)
    (routed : ∀ query rest t, input = .nextStatement → s.pending = query :: rest →
      Qualifies cfg w (statementParsed query s.original) s t → P t)
    (sends : ∀ c u, Sends cfg w s input c u → P (exchange w c u).2)
    (taken : step cfg s (input, w) = some t) : P t := by
  have prepared : ∀ query response t, input = .stmtPrepare query →
      exchange w (.stmtPrepare query) s = (some response, t) → P t := by
    intro query response t prepare made
    have sent := sends (.stmtPrepare query) s (prepare ▸ .prepare)
    rw [made] at sent
    exact sent
  refine wired.toStable.step start routed sends ?_ ?_ taken
  · intro query response t prepare made _
    exact wired.record query response t (prepared query response t prepare made)
  · intro t crashes
    apply wired.crash
    cases crashes with
    | noPool waiting qualifies _ => exact routed _ _ t rfl waiting qualifies
    | shortAnswer made => exact prepared _ _ t rfl made
    | params _ => exact start

end TQDBProxy.MariaDB
