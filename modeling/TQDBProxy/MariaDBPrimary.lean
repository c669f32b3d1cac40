import TQDBProxy.MariaDBReconnect

/-! Writes and BEGIN belong on the primary of the connection's pool. Only the
statements that the proxy forwards as such choose the primary; BEGIN and the
executions of prepared statements use the connection they find, which may be to
a replica. -/

namespace TQDBProxy.MariaDB

open GuardedRuns TQDBProxy.Parser SqlTokens

def writes : List GoString → Bool
  | [] => false
  | t :: _ =>
    isKeyword (lit "INSERT") t || isKeyword (lit "UPDATE") t || isKeyword (lit "DELETE") t

/-- The text is a write or starts a transaction. Its first statement says so: the backend
sessions are opened without multi-statements. -/
def primaryOnly (text : GoString) : Bool :=
  (statements .mysql text).head?.any fun statement =>
    writes statement || startsTransaction .mysql statement

/-- The address of a connection: a new one is in the log of the step, the other
is the one there was. -/
def connAddr (s : Session) : List Event → Nat → GoString
  | [], _ => s.backendAddr
  | .dialed k addr _ :: older, conn => if k = conn then addr else connAddr s older conn
  | _ :: older, conn => connAddr s older conn

def SentRight (cfg : ProxyConfig) (s t : Session) : Prop :=
  ∀ b conn c text, .sent b conn c ∈ t.events → serverText s conn c = some text →
    primaryOnly text = true →
      ∃ pool, cfg.pools t.backendPool = some pool ∧ connAddr s t.events conn = pool.getPrimary

variable {cfg : ProxyConfig} {w : World} {s t u v : Session} {input : Input} {c : Command}
  {parsed : ParsedQuery}

theorem connAddr_filter (events : List Event) (conn : Nat) :
    connAddr s (events.filter wired) conn = connAddr s events conn := by
  induction events with
  | nil => rfl
  | cons e older ih => cases e <;> simp [List.filter_cons, wired, connAddr, ih]

theorem log_core (same : u.core = t.core) :
    (∀ conn, connAddr s u.events conn = connAddr s t.events conn) ∧
      ∀ b conn c, .sent b conn c ∈ u.events ↔ .sent b conn c ∈ t.events := by
  have events := (same_core same).events
  constructor
  · intro conn
    rw [← connAddr_filter, events, connAddr_filter]
  · intro b conn c
    rw [← sent_filter, events, sent_filter]

theorem sentRight_resetBackend (held : SentRight cfg s t) : SentRight cfg s t.resetBackend := by
  intro b conn c text mem
  have log : (.sent b conn c ∈ t.resetBackend.events ↔ .sent b conn c ∈ t.events) ∧
      connAddr s t.resetBackend.events conn = connAddr s t.events conn := by
    unfold Session.resetBackend Session.closeBackend
    split <;> simp [Session.note, connAddr]
  rw [pooled_resetBackend, log.2]
  exact held b conn c text (log.1.mp mem)

theorem wired_sentRight : Wired (SentRight cfg s) where
  congr := by
    intro t u held same b conn c text mem
    obtain ⟨addr, sent⟩ := log_core (s := s) same
    rw [addr, (same_core same).pool]
    exact held b conn c text ((sent b conn c).mp mem)
  lost := fun _ _ held => sentRight_resetBackend held
  mislabel := fun _ held => held
  crash := fun _ held => held
  record := fun _ _ _ held => held

/-- A session on the way from `s` to its command: nothing is sent yet, and the
current connection is the one there was or the last in the log. -/
structure Underway (s u : Session) : Prop where
  unsent : ∀ b conn c, .sent b conn c ∉ u.events
  addressed : ∀ conn, u.backend = some conn → connAddr s u.events conn = u.backendAddr
  server : u.serverStatements = s.serverStatements

theorem underway_fresh : Underway s s.fresh := by
  refine ⟨?_, fun _ _ => rfl, rfl⟩
  intro b conn c mem
  cases mem

theorem Underway.congr (way : Underway s u) (same : v.core = u.core) : Underway s v := by
  obtain ⟨addr, sent⟩ := log_core (s := s) same
  have fields := same_core same
  constructor
  · exact fun b conn c mem => way.unsent b conn c ((sent b conn c).mp mem)
  · intro conn current
    rw [addr, fields.addr]
    exact way.addressed conn (fields.backend ▸ current)
  · rw [fields.server, way.server]

theorem Underway.connects {addr name pool : GoString} (way : Underway s u)
    (connects : Connects w addr name pool u v) : Underway s v := by
  cases connects with
  | current _ _ core => exact way.congr core
  | dialled _ core =>
    have fields := switched core
    constructor
    · intro b conn c mem
      rw [← sent_filter, fields.events] at mem
      have old : .sent b conn c ∈ u.events.filter wired := by simpa using mem
      exact way.unsent b conn c (sent_filter.mp old)
    · intro conn current
      rw [fields.backend] at current
      cases current
      rw [← connAddr_filter, fields.events, fields.addr]
      simp [connAddr]
    · rw [fields.server, way.server]

theorem Underway.routes {db : GoString} (way : Underway s u) (routes : Routes cfg w db u v) :
    Underway s v := by
  cases routes with
  | here _ _ _ _ core => exact way.congr core
  | there _ _ connects => exact way.connects connects

theorem Underway.database {db : GoString} (way : Underway s u) : Underway s { u with db := db } :=
  ⟨way.unsent, way.addressed, way.server⟩

theorem Underway.qualifies (way : Underway s u) (qualifies : Qualifies cfg w parsed u v) :
    Underway s v := by
  cases qualifies with
  | plain _ core => exact way.congr core
  | shard x _ _ routes core => exact (way.routes routes).database.congr core

theorem Underway.statement (way : Underway s u) (sends : StatementSends cfg w parsed u c v) :
    Underway s v := by
  cases sends with
  | use _ routes core => exact (way.routes routes).database.congr core
  | control _ => exact way
  | status _ routes => exact way.routes routes
  | execute _ _ _ connects => exact way.connects connects

theorem Underway.sends (way : Underway s u) (sends : Sends cfg w u input c v) : Underway s v := by
  cases sends with
  | initDB routes core => exact (way.routes routes).database.congr core
  | statement _ qualifies sends => exact (way.qualifies qualifies).statement sends
  | execute _ core => exact way.congr core
  | close =>
    unfold forgetStatement
    split
    · exact ⟨way.unsent, way.addressed, way.server⟩
    · exact way
  | prepare | reset => exact way

theorem Underway.sentRight (way : Underway s u)
    (right : ∀ conn text, u.backend = some conn → serverText s conn c = some text →
      primaryOnly text = true → ∃ pool, cfg.pools u.backendPool = some pool ∧
        u.backendAddr = pool.getPrimary) :
    SentRight cfg s (exchange w c u).2 := by
  have unsent : SentRight cfg s u := fun b conn c text mem => absurd mem (way.unsent b conn c)
  have noted : ∀ conn, u.backend = some conn → SentRight cfg s (u.note (.sent u.begun conn c)) := by
    intro conn current b conn' c' text mem known only
    rcases List.mem_cons.mp mem with same | old
    · cases same
      obtain ⟨pool, found, primary⟩ := right conn text current known only
      refine ⟨pool, found, ?_⟩
      rw [← primary, ← way.addressed conn current]
      rfl
    · exact absurd old (way.unsent b conn' c')
  exact wired_sentRight.exchange (fun _ => unsent)
    (fun conn current _ => sentRight_resetBackend (noted conn current))
    fun conn current _ => noted conn current

def primaryWords : List GoString :=
  ["INSERT", "UPDATE", "DELETE", "BEGIN", "START", "COMMIT", "END", "ROLLBACK"].map lit

theorem primaryOnly_lead {front rest : GoString} {b : UInt8} {t u : GoString}
    (two : tokens .mysql front = [b :: t, u]) (mark : b ∉ ([35, 45, 47, 59] : GoString))
    (other : primaryWords.any (isKeyword · (b :: t)) = false) :
    primaryOnly (front ++ rest) = false := by
  obtain ⟨statement, later, eq⟩ := statements_lead two mark rest
  simp only [primaryWords, List.map_cons, List.map_nil, List.any_cons, List.any_nil, Bool.or_false,
    Bool.or_eq_false_iff] at other
  obtain ⟨insert, update, delete, begin, start, commit, ending, rollback⟩ := other
  simp [primaryOnly, eq, writes, startsTransaction, endKeyword, insert, update, delete,
    begin, start,
    commit, ending, rollback]

theorem primaryOnly_use (dbName : GoString) : primaryOnly (useStatement dbName) = false := by
  rw [useStatement, List.append_assoc]
  exact primaryOnly_lead (b := 85) (t := lit "SE") (u := [96]) (by decide) (by decide) (by decide)

theorem primaryOnly_status : primaryOnly (statusQuery cfg s) = false := by
  obtain ⟨rest, eq⟩ := statusQuery_select cfg s
  rw [eq]
  exact primaryOnly_lead (b := 83) (t := lit "ELECT") (u := [39]) (by decide) (by decide)
    (by decide)

/-- A BEGIN, or the execution of a prepared text that belongs on the primary, finds the
connection there. -/
def keepsPrimary (cfg : ProxyConfig) (s : Session) (a : Input × World) : Bool :=
  match a.1 with
  | .nextStatement =>
    match s.pending with
    | [] => true
    | query :: _ =>
      let parsed := statementParsed query s.original
      if statementKind parsed.query = .begin then
        (parsed.db = [] || parsed.db = s.db) && atPrimary cfg s
      else !(parsed.isCacheable && primaryOnly parsed.query)
  | .stmtExecute data =>
    atPrimary cfg s || s.backend.all fun conn =>
      (serverText s conn (.stmtExecute data)).all (!primaryOnly ·)
  | _ => true

theorem primary_of_atPrimary (pooled : Pooled cfg s) (near : atPrimary cfg s = true) :
    ∃ pool, cfg.pools s.backendPool = some pool ∧ s.backendAddr = pool.getPrimary := by
  obtain ⟨pool, found⟩ := Option.isSome_iff_exists.mp pooled
  refine ⟨pool, found, ?_⟩
  simp only [atPrimary, found, decide_eq_true_eq] at near
  exact near.symm

theorem primary_core (same : u.core = s.core)
    (primary : ∃ pool, cfg.pools s.backendPool = some pool ∧ s.backendAddr = pool.getPrimary) :
    ∃ pool, cfg.pools u.backendPool = some pool ∧ u.backendAddr = pool.getPrimary := by
  rw [(same_core same).pool, (same_core same).addr]
  exact primary

theorem StatementSends.primary (sends : StatementSends cfg w parsed s c u) (pooled : Pooled cfg s)
    (begins : statementKind parsed.query = .begin → atPrimary cfg s = true)
    (reads : statementKind parsed.query ≠ .begin → parsed.isCacheable = true →
      primaryOnly parsed.query = false)
    {conn : Nat} {text : GoString} (known : serverText v conn c = some text)
    (only : primaryOnly text = true) :
    ∃ pool, cfg.pools u.backendPool = some pool ∧ u.backendAddr = pool.getPrimary := by
  cases sends with
  | use _ _ _ =>
    cases known
    rw [primaryOnly_use] at only
    cases only
  | status _ _ =>
    cases known
    rw [primaryOnly_status] at only
    cases only
  | control control =>
    cases known
    cases kind : statementKind parsed.query with
    | begin => exact primary_of_atPrimary pooled (begins kind)
    | commit | rollback =>
      rw [kind] at control
      cases control
      exact absurd only (by decide)
    | use | status | other =>
      rw [kind] at control
      cases control
  | @execute pool addr name t kind found choice connects =>
    cases known
    rcases choice with primary | ⟨cacheable, -⟩
    · refine ⟨pool, ?_, connects.connected.2.trans primary⟩
      cases connects with
      | current _ _ core => rw [(same_core core).pool, found]
      | dialled _ core => rw [(switched core).pool, found]
    · rw [reads (by simp [kind]) cacheable] at only
      cases only

theorem Sends.primary (sends : Sends cfg w s input c u) (pooled : Pooled cfg s)
    (guard : keepsPrimary cfg s (input, w) = true) {conn : Nat} {text : GoString}
    (current : u.backend = some conn) (known : serverText s conn c = some text)
    (only : primaryOnly text = true) :
    ∃ pool, cfg.pools u.backendPool = some pool ∧ u.backendAddr = pool.getPrimary := by
  cases sends with
  | initDB _ _ =>
    cases known
    rw [primaryOnly_use] at only
    cases only
  | @statement query rest t u c waiting qualifies sends =>
    simp only [keepsPrimary, waiting] at guard
    refine sends.primary (qualifies.pooled pooled) ?_ ?_ known only
    · intro begins
      rw [if_pos begins] at guard
      simp only [Bool.and_eq_true, Bool.or_eq_true, decide_eq_true_eq] at guard
      cases qualifies with
      | plain _ core => rw [atPrimary, (same_core core).pool, (same_core core).addr]; exact guard.2
      | shard _ named away _ _ => exact absurd guard.1 (not_or.mpr ⟨named, away⟩)
    · intro other cacheable
      rw [if_neg other] at guard
      simpa [cacheable] using guard
  | execute _ core =>
    rw [(same_core core).backend] at current
    have near : atPrimary cfg s = true := by
      simpa [keepsPrimary, current, known, only] using guard
    exact primary_core core (primary_of_atPrimary pooled near)
  | prepare | close | reset => cases known

theorem sentRight_step {a : Input × World} (pooled : Pooled cfg s)
    (guard : keepsPrimary cfg s a = true) (taken : step cfg s.fresh a = some t) :
    SentRight cfg s t := by
  obtain ⟨input, w⟩ := a
  have unsent : ∀ u, Underway s u → SentRight cfg s u :=
    fun u way b conn c text mem => absurd mem (way.unsent b conn c)
  refine wired_sentRight.step (unsent _ underway_fresh)
    (fun _ _ t _ _ qualifies => unsent t (underway_fresh.qualifies qualifies)) ?_ taken
  intro c u sends
  refine (underway_fresh.sends sends).sentRight fun conn text current known only => ?_
  exact sends.primary pooled guard current known only

/-- Writes and BEGIN go to the primary if the ones that do not choose their
connection find it there. -/
theorem writes_reach_primary {cfg : ProxyConfig} {w : World} {db : GoString} {init s t : Session}
    {a : Input × World} (connected : handleConnection cfg w db = some init)
    (run : Reach (step cfg) (fun s a => keepsPrimary cfg s a = true) init s)
    (guard : keepsPrimary cfg s a = true) (taken : step cfg s.fresh a = some t) :
    SentRight cfg s t := by
  have pooled : Pooled cfg s :=
    run.invariant (pooled_handleConnection connected) fun _ _ _ held _ taken =>
      pooled_step held taken
  exact sentRight_step pooled guard taken

/-- After a cacheable SELECT on a replica an INSERT is sent on a new connection to
the primary. -/
theorem writes_reach_primary_insert :
    ∃ s t, step replicated s.fresh (.nextStatement, {}) = some t ∧
      .sent none 2 (.query (lit "INSERT INTO t VALUES (1)")) ∈ t.events ∧
      primaryOnly (lit "INSERT INTO t VALUES (1)") = true ∧ SentRight replicated s t := by
  obtain ⟨s, reach, seen⟩ := checked_of_test (step replicated) (keepsPrimary replicated) client
    (sending ["/* ttl:60 */ SELECT a FROM t"] ++ asking "INSERT INTO t VALUES (1)")
    (fun s => keepsPrimary replicated s (.nextStatement, {}) &&
      (step replicated s.fresh (.nextStatement, {})).any fun t =>
        .sent none 2 (.query (lit "INSERT INTO t VALUES (1)")) ∈ t.events) (by decide)
  simp only [Bool.and_eq_true, Option.any_eq_true, decide_eq_true_eq] at seen
  obtain ⟨guard, t, taken, sent⟩ := seen
  exact ⟨s, t, taken, sent, by decide, writes_reach_primary client_connected reach guard taken⟩

/-- BEGIN is sent to the replica that answered a cacheable SELECT. -/
theorem begin_reaches_replica :
    handleConnection replicated {} [] = some client ∧
      ∃ s t, Reach (step replicated) free client s ∧
        step replicated s.fresh (.nextStatement, {}) = some t ∧ ¬ SentRight replicated s t := by
  refine ⟨client_connected, ?_⟩
  obtain ⟨s, reach, seen⟩ := free_of_test (step replicated) client
    (sending ["/* ttl:60 */ SELECT a FROM t"] ++ asking "BEGIN")
    (fun s => (step replicated s.fresh (.nextStatement, {})).any fun t =>
      .sent none 1 (.query (lit "BEGIN")) ∈ t.events && t.backendPool == lit "main" &&
        connAddr s t.events 1 == lit "r:3306") (by decide)
  simp only [Bool.and_eq_true, Option.any_eq_true, decide_eq_true_eq, beq_iff_eq] at seen
  obtain ⟨t, taken, ⟨sent, pool⟩, addr⟩ := seen
  refine ⟨s, t, reach, taken, fun right => ?_⟩
  obtain ⟨main, found, primary⟩ := right none 1 _ (lit "BEGIN") sent rfl (by decide)
  rw [pool] at found
  rw [addr] at primary
  cases found
  exact absurd primary (by decide)

end TQDBProxy.MariaDB
