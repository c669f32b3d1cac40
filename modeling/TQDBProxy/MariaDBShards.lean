import TQDBProxy.MariaDBReconnect
import TQDBProxy.MariaDBSteps

/-! The pool of a MariaDB client connection should be the shard of its current
database. The two are separate fields: the handshake and SHOW TQDB STATUS set one
of them, and a connection that is already at the address of the new shard's
primary is kept with its old pool. -/

namespace TQDBProxy.MariaDB

open GuardedRuns TQDBProxy.Parser

def Owned (cfg : ProxyConfig) (s : Session) : Prop :=
  s.backend.isSome = true → ∃ pool, cfg.pools s.backendPool = some pool ∧
    (s.backendAddr = pool.getPrimary ∨ ∃ state, s.backendAddr = (pool.getReplica state).1.1)

/-- The pool is the shard of the database, and the connection one of that pool. -/
def Sharded (cfg : ProxyConfig) (s : Session) : Prop :=
  s.backendPool = cfg.shardName s.db ∧ Owned cfg s

variable {cfg : ProxyConfig} {w : World} {s t u : Session} {input : Input} {c : Command}
  {parsed : ParsedQuery}

theorem owned_core (owned : Owned cfg s) (same : t.core = s.core) : Owned cfg t := by
  have fields := same_core same
  rw [Owned, fields.backend, fields.pool, fields.addr]
  exact owned

theorem sharded_core (sharded : Sharded cfg s) (same : t.core = s.core) : Sharded cfg t := by
  refine ⟨?_, owned_core sharded.2 same⟩
  rw [(same_core same).pool, (same_core same).db]
  exact sharded.1

theorem sharded_resetBackend (sharded : Sharded cfg s) : Sharded cfg s.resetBackend := by
  have fields : s.resetBackend.db = s.db ∧ s.resetBackend.backend = none := by
    unfold Session.resetBackend Session.closeBackend
    split <;> exact ⟨rfl, rfl⟩
  constructor
  · rw [pooled_resetBackend, fields.1]
    exact sharded.1
  · intro some
    rw [fields.2] at some
    cases some

theorem wired_sharded : Wired (Sharded cfg) where
  congr := fun _ _ sharded same => sharded_core sharded same
  lost := fun _ _ sharded => sharded_resetBackend sharded
  mislabel := fun _ sharded => sharded
  crash := fun _ sharded => sharded
  record := fun _ _ _ sharded => sharded

theorem sharded_exchange (sharded : Sharded cfg s) : Sharded cfg (exchange w c s).2 :=
  wired_sharded.exchange (fun _ => sharded) (fun _ _ _ => sharded_resetBackend sharded)
    fun _ _ _ => sharded

theorem Connects.sharded {pool : Pool} {addr name : GoString} (sharded : Sharded cfg s)
    (found : cfg.pools s.backendPool = some pool)
    (choice : addr = pool.getPrimary ∨ ∃ state, addr = (pool.getReplica state).1.1)
    (connects : Connects w addr name s.backendPool s t) : Sharded cfg t := by
  cases connects with
  | current _ _ core => exact sharded_core sharded core
  | dialled _ core =>
    have fields := switched core
    constructor
    · rw [fields.pool, fields.db]
      exact sharded.1
    · intro _
      rw [fields.pool, fields.addr]
      exact ⟨pool, found, choice⟩

/-- The pool follows the database: the shard is the current one, or its primary is
not at the current address. -/
def switches (cfg : ProxyConfig) (s : Session) (db : GoString) : Bool :=
  match cfg.pools (cfg.shardName db) with
  | none => true
  | some pool =>
    cfg.shardName db = s.backendPool || s.backend.isNone || pool.getPrimary ≠ s.backendAddr

theorem Routes.sharded {db : GoString} (routes : Routes cfg w db s t) (owned : Owned cfg s)
    (follows : switches cfg s db = true) : Sharded cfg { t with db := db } := by
  have kept (core : t.core = s.core) : Owned cfg t := owned_core owned core
  cases routes with
  | here pool found near some core =>
    refine ⟨?_, kept core⟩
    rw [near, ← (same_core core).pool]
  | there pool found connects =>
    cases connects with
    | current near some core =>
      refine ⟨?_, kept core⟩
      simp only [switches, found, Bool.or_eq_true, decide_eq_true_eq, Option.isNone_iff_eq_none]
        at follows
      rcases follows with (same | missing) | away
      · rw [same, ← (same_core core).pool]
      · rw [missing] at some
        cases some
      · exact absurd near away
    | dialled _ core =>
      have fields := switched core
      refine ⟨fields.pool, fun _ => ⟨pool, ?_, .inl fields.addr⟩⟩
      rw [← found, ← fields.pool]

theorem Routes.status (routes : Routes cfg w [] s t) (sharded : Sharded cfg s)
    (home : cfg.shardName [] = cfg.shardName s.db) : Sharded cfg t := by
  cases routes with
  | here _ _ _ _ core => exact sharded_core sharded core
  | there pool found connects =>
    rw [home, ← sharded.1] at found connects
    exact connects.sharded sharded found (.inl rfl)

def statementFollows (cfg : ProxyConfig) (s : Session) (parsed : ParsedQuery) : Bool :=
  (parsed.db = [] || parsed.db = s.db || switches cfg s parsed.db) &&
    match statementKind parsed.query with
    | .use dbName => (parsed.db = [] || parsed.db = s.db) && switches cfg s dbName
    | .status => cfg.shardName [] = cfg.shardName (qualifiedDatabase s parsed)
    | _ => true

def followsShard (cfg : ProxyConfig) (s : Session) (a : Input × World) : Bool :=
  match a.1 with
  | .initDB dbName => switches cfg s dbName
  | .nextStatement =>
    match s.pending with
    | [] => true
    | query :: _ => statementFollows cfg s (statementParsed query s.original)
  | _ => true

theorem Qualifies.sharded (qualifies : Qualifies cfg w parsed s t) (sharded : Sharded cfg s)
    (follows : statementFollows cfg s parsed = true) :
    Sharded cfg t ∧ t.db = qualifiedDatabase s parsed := by
  simp only [statementFollows, Bool.and_eq_true, Bool.or_eq_true, decide_eq_true_eq] at follows
  cases qualifies with
  | plain here core =>
    refine ⟨sharded_core sharded core, ?_⟩
    rw [(same_core core).db, qualifiedDatabase]
    split
    · rfl
    · rename_i named
      exact (here.resolve_left named).symm
  | shard u named away routes core =>
    rcases follows.1 with (absent | same) | switch
    · exact absurd absent named
    · exact absurd same away
    · refine ⟨sharded_core (routes.sharded sharded.2 switch) core, ?_⟩
      rw [(same_core core).db, qualifiedDatabase, if_neg named]

theorem switches_core {db : GoString} (same : t.core = s.core) :
    switches cfg t db = switches cfg s db := by
  have fields := same_core same
  rw [switches, switches, fields.pool, fields.addr, fields.backend]

theorem StatementSends.sharded (sends : StatementSends cfg w parsed t c u)
    (qualifies : Qualifies cfg w parsed s t) (sharded : Sharded cfg s)
    (follows : statementFollows cfg s parsed = true) : Sharded cfg u := by
  obtain ⟨routed, database⟩ := qualifies.sharded sharded follows
  simp only [statementFollows, Bool.and_eq_true] at follows
  cases sends with
  | @use dbName v u kind routes core =>
    simp only [kind, Bool.and_eq_true, Bool.or_eq_true, decide_eq_true_eq] at follows
    refine sharded_core (routes.sharded routed.2 ?_) core
    cases qualifies with
    | plain _ same => exact (switches_core same).trans follows.2.2
    | shard _ named away _ _ => exact absurd follows.2.1 (not_or.mpr ⟨named, away⟩)
  | control _ => exact routed
  | status kind routes =>
    simp only [kind, decide_eq_true_eq] at follows
    exact routes.status routed (by rw [database]; exact follows.2)
  | execute _ found choice connects =>
    refine connects.sharded routed found ?_
    rcases choice with primary | ⟨-, replica⟩
    · exact .inl primary
    · exact .inr ⟨w.replicas, by rw [← replica]⟩

theorem Sends.sharded (sends : Sends cfg w s input c u) (sharded : Sharded cfg s)
    (guard : followsShard cfg s (input, w) = true) : Sharded cfg u := by
  cases sends with
  | initDB routes core => exact sharded_core (routes.sharded sharded.2 guard) core
  | statement waiting qualifies sends =>
    simp only [followsShard, waiting] at guard
    exact sends.sharded qualifies sharded guard
  | execute _ core => exact sharded_core sharded core
  | close =>
    unfold forgetStatement
    split <;> exact sharded
  | prepare | reset => exact sharded

theorem sharded_step {a : Input × World} (sharded : Sharded cfg s)
    (guard : followsShard cfg s a = true) (taken : step cfg s a = some t) : Sharded cfg t := by
  obtain ⟨input, w⟩ := a
  refine wired_sharded.step sharded ?_
    (fun c u sends => sharded_exchange (sends.sharded sharded guard)) taken
  intro query rest t next waiting qualifies
  simp only [followsShard, next, waiting] at guard
  exact (qualifies.sharded sharded guard).1

theorem sharded_handleConnection {db : GoString} (home : cfg.shardName db = cfg.default)
    (connected : handleConnection cfg w db = some s) : Sharded cfg s := by
  obtain ⟨pool, found, start⟩ := handleConnection_cases connected
  have initial : Sharded cfg (greeted cfg pool db) := ⟨home.symm, fun _ => ⟨pool, found, .inl rfl⟩⟩
  rcases start with ⟨-, rfl⟩ | ⟨-, rfl⟩
  · exact initial
  · exact sharded_exchange initial

/-- The pool is the shard of the current database on every run whose handshake asks
for a database of the default shard and whose steps never change one without the
other. -/
theorem pool_follows_database {cfg : ProxyConfig} {w : World} {db : GoString} {init s : Session}
    (connected : handleConnection cfg w db = some init) (home : cfg.shardName db = cfg.default)
    (run : Reach (step cfg) (fun s a => followsShard cfg s a = true) init s) :
    s.backendPool = cfg.shardName s.db ∧ Owned cfg s :=
  run.invariant (sharded_handleConnection home connected) fun _ _ _ => sharded_step

/-- Two shards, the second one with the database of a shop. -/
def twoShards : ProxyConfig where
  default := lit "main"
  dbMap := fun db => if db = lit "shop" then lit "second" else []
  pools := fun name =>
    if name = lit "main" then some ⟨lit "p:3306", []⟩
    else if name = lit "second" then some ⟨lit "q:3306", []⟩ else none

def shardedClient (db : GoString) : Session where
  backend := some 0
  backendPool := lit "main"
  backendAddr := lit "p:3306"
  backendName := lit "primary"
  db := db
  dialled := 1
  events := [.sent none 0 (.query (useStatement db)), .dialed 0 (lit "p:3306") []]

theorem shardedClient_connected :
    handleConnection twoShards {} (lit "blog") = some (shardedClient (lit "blog")) ∧
      handleConnection twoShards {} (lit "shop") = some (shardedClient (lit "shop")) :=
  ⟨rfl, rfl⟩

theorem pool_follows_use :
    ∃ s : Session, s.db = lit "shop" ∧ s.backendPool = lit "second" ∧
      s.backendPool = twoShards.shardName s.db ∧ Owned twoShards s := by
  obtain ⟨s, reach, seen⟩ := checked_of_test (step twoShards) (followsShard twoShards)
    (shardedClient (lit "blog")) (sending ["USE shop", "SELECT 1"])
    (fun s => s.db == lit "shop" && s.backendPool == lit "second") (by decide)
  simp only [Bool.and_eq_true, beq_iff_eq] at seen
  exact ⟨s, seen.1, seen.2,
    pool_follows_database shardedClient_connected.1 (by decide) reach⟩

/-- A client that asks for the shop in the handshake stays on the default shard, and
so does its INSERT. -/
theorem pool_ignores_handshake :
    handleConnection twoShards {} (lit "shop") = some (shardedClient (lit "shop")) ∧
      ∃ s : Session, Reach (step twoShards) free (shardedClient (lit "shop")) s ∧
        .sent none 0 (.query (lit "INSERT INTO t VALUES (1)")) ∈ s.events ∧
        s.backendPool ≠ twoShards.shardName s.db := by
  refine ⟨shardedClient_connected.2, ?_⟩
  obtain ⟨s, reach, seen⟩ := free_of_test (step twoShards) (shardedClient (lit "shop"))
    (sending ["INSERT INTO t VALUES (1)"])
    (fun s => .sent none 0 (.query (lit "INSERT INTO t VALUES (1)")) ∈ s.events &&
      s.backendPool != twoShards.shardName s.db) (by decide)
  simp only [Bool.and_eq_true, decide_eq_true_eq, bne_iff_ne] at seen
  exact ⟨s, reach, seen.1, seen.2⟩

end TQDBProxy.MariaDB
