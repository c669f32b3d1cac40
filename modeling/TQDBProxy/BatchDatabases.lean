import TQDBProxy.ProxySystem

/-! Batches and database boundaries. A proxy has one manager, connected to one database on
the default pool, and the batch key is the text of the statement alone. -/

namespace TQDBProxy

open GuardedRuns WriteBatchManager TQDBProxy.Parser

structure Target where
  pool : Option Pool
  database : GoString
  deriving DecidableEq

def managerTarget (cfg : ProxyConfig) : Target := ⟨cfg.pools cfg.default, lit "tqdbproxy"⟩

def ownTarget (cfg : ProxyConfig) (db : GoString) : Target := ⟨cfg.pools (cfg.shardName db), db⟩

namespace System

variable {p : Proxy} {maxBatchSize : Nat} {s t : System p}

def ExecutedAtHome (cfg : ProxyConfig) (s : System p) : Prop :=
  ∀ c ∈ s.manager.executed, ∃ r, s.requests[c]? = some r ∧ managerTarget cfg = ownTarget cfg r.db

def Separated (s : System p) : Prop :=
  ∀ run, ∀ c ∈ s.manager.taken run, ∀ d ∈ s.manager.taken run,
    ∃ r q, s.requests[c]? = some r ∧ s.requests[d]? = some q ∧ r.db = q.db

def KeysApart (requests : List Request) : Prop :=
  ∀ r ∈ requests, ∀ q ∈ requests, r.batchKey = q.batchKey → r.db = q.db

/-- A client hands no text to the manager that another database has handed to it, where
`handed` is the database and the batch key of what a client may hand over. -/
def keepsApart (handed : p.Session → p.Input → Option (GoString × GoString)) (s : System p) :
    SystemAction p → Bool
  | .client conn input =>
    (s.clients conn).all fun c => (handed (p.forget c) input).all fun (db, key) =>
      s.requests.all fun r => r.batchKey != key || r.db == db
  | _ => true

section

variable {handed : p.Session → p.Input → Option (GoString × GoString)}

theorem keysApart_append {requests later : List Request} (db key : GoString)
    (before : KeysApart requests)
    (apart : ∀ r ∈ requests, r.batchKey = key → r.db = db)
    (new : ∀ r ∈ later, r.db = db ∧ r.batchKey = key) : KeysApart (requests ++ later) := by
  intro r mem q mem' same
  rcases List.mem_append.mp mem with old | late <;>
    rcases List.mem_append.mp mem' with old' | late'
  · exact before r old q old' same
  · obtain ⟨database, keyed⟩ := new q late'
    exact (apart r old (same.trans keyed)).trans database.symm
  · obtain ⟨database, keyed⟩ := new r late
    exact database.trans (apart q old' (same.symm.trans keyed)).symm
  · exact (new r late).1.trans (new q late').1.symm

theorem keysApart_of_reach
    (hands : ∀ c input d, p.step (p.forget c) input = some d → ∀ db key query params batchMs,
      .enqueued db key query params batchMs ∈ p.events d →
        handed (p.forget c) input = some (db, key))
    (reach : Reach (step maxBatchSize) (fun s a => s.keepsApart handed a = true) start s) :
    KeysApart s.requests := by
  refine reach.invariant (P := fun s => KeysApart s.requests) (by simp [start, KeysApart]) ?_
  intro s a t before guard taken
  cases a with
  | connect conn hello =>
    rw [(connect_step taken).1]
    exact before
  | manager a =>
    obtain ⟨-, m, -, rfl⟩ := manager_step taken
    exact before
  | client conn input =>
    obtain ⟨c, d, found, stepped, rfl⟩ := client_step taken
    have made : ∀ r ∈ newRequests conn d, handed (p.forget c) input = some (r.db, r.batchKey) := by
      intro r mem
      obtain ⟨e, logged, made⟩ := List.mem_filterMap.mp mem
      cases e <;> cases made
      exact hands c input d stepped _ _ _ _ _ (List.mem_reverse.mp logged)
    cases gives : handed (p.forget c) input with
    | none =>
      have nothing : newRequests conn d = [] := List.eq_nil_iff_forall_not_mem.mpr fun r mem => by
        have given := made r mem
        rw [gives] at given
        cases given
      simpa [System.answer, nothing] using before
    | some given =>
      refine keysApart_append given.1 given.2 before ?_ fun r mem => ?_
      · simpa [keepsApart, found, gives, or_iff_not_imp_left] using guard
      · have same := made r mem
        rw [gives] at same
        obtain rfl := Option.some.inj same
        exact ⟨rfl, rfl⟩

theorem separated_of_reach
    (hands : ∀ c input d, p.step (p.forget c) input = some d → ∀ db key query params batchMs,
      .enqueued db key query params batchMs ∈ p.events d →
        handed (p.forget c) input = some (db, key))
    (reach : Reach (step maxBatchSize) (fun s a => s.keepsApart handed a = true) start s) :
    s.Separated := by
  have apart := keysApart_of_reach hands reach
  intro run c mem d mem'
  obtain ⟨r, q, found, found', same⟩ := (reach_sound reach).taken_requests mem mem'
  exact ⟨r, q, found, found',
    apart r (List.mem_of_getElem? found) q (List.mem_of_getElem? found') same⟩

end

theorem executedAtHome_of_requests {cfg : ProxyConfig} (sound : Sound s)
    (home : ∀ r ∈ s.requests, ownTarget cfg r.db = managerTarget cfg) : s.ExecutedAtHome cfg := by
  intro c mem
  obtain ⟨r, found⟩ := sound.executed_request mem
  exact ⟨r, found, (home r (List.mem_of_getElem? found)).symm⟩

end System

/-- The database and the batch key of what a statement hands to the manager. -/
def MariaDB.handed (s : MariaDB.Session) (a : MariaDB.Input × MariaDB.World) :
    Option (GoString × GoString) :=
  if batchableInput s a.1 && !s.inTransaction then some (inputDatabase s a.1, inputKey s a.1)
  else none

def Postgres.handed (s : Postgres.Session) (a : Postgres.Message × Postgres.World) :
    Option (GoString × GoString) :=
  if batchableMessage s a.1 && !flagAfter s a.1 then
    (messageParsed s a.1).map fun parsed => (s.database, parsed.getBatchKey)
  else none

def MariaDB.enqueuesAtHome (cfg : ProxyConfig) (s : MariaDB.Session)
    (a : MariaDB.Input × MariaDB.World) : Bool :=
  !(batchableInput s a.1 && !s.inTransaction) ||
    ownTarget cfg (inputDatabase s a.1) = managerTarget cfg

def Postgres.enqueuesAtHome (cfg : ProxyConfig) (s : Postgres.Session)
    (a : Postgres.Message × Postgres.World) : Bool :=
  !(batchableMessage s a.1 && !flagAfter s a.1) || ownTarget cfg s.database = managerTarget cfg

section

variable {cfg : ProxyConfig} {db key query : GoString} {params : List Value} {batchMs : Nat}

theorem MariaDB.enqueued_emitted {c d : MariaDB.Session} {a : MariaDB.Input × MariaDB.World}
    (silent : c.events = []) (stepped : step cfg c a = some d)
    (logged : .enqueued db key query params batchMs ∈ d.events) :
    c.inTransaction = false ∧ batchableInput c a.1 = true ∧ db = inputDatabase c a.1 ∧
      key = inputKey c a.1 := by
  rcases step_emitted stepped _ logged with old | new
  · rw [silent] at old
    cases old
  · exact new

theorem MariaDB.enqueued_handed {c d : MariaDB.Session} {a : MariaDB.Input × MariaDB.World}
    (silent : c.events = []) (stepped : step cfg c a = some d)
    (logged : .enqueued db key query params batchMs ∈ d.events) : handed c a = some (db, key) := by
  obtain ⟨outside, batchable, database, keyed⟩ := enqueued_emitted silent stepped logged
  simp [handed, outside, batchable, database, keyed]

theorem MariaDB.enqueued_database {c d : MariaDB.Session} {a : MariaDB.Input × MariaDB.World}
    (silent : c.events = []) (home : enqueuesAtHome cfg c a = true)
    (stepped : step cfg c a = some d) (logged : .enqueued db key query params batchMs ∈ d.events) :
    ownTarget cfg db = managerTarget cfg := by
  obtain ⟨outside, batchable, database, -⟩ := enqueued_emitted silent stepped logged
  rw [database]
  simpa [enqueuesAtHome, outside, batchable] using home

theorem Postgres.enqueued_emitted {c d : Postgres.Session} {a : Postgres.Message × Postgres.World}
    (silent : c.events = []) (stepped : step c a = some d)
    (logged : .enqueued db key query params batchMs ∈ d.events) :
    flagAfter c a.1 = false ∧ batchableMessage c a.1 = true ∧ db = c.database ∧
      (messageParsed c a.1).map (·.getBatchKey) = some key := by
  rcases step_emitted stepped _ logged with old | new
  · rw [silent] at old
    cases old
  · exact new

theorem Postgres.enqueued_handed {c d : Postgres.Session} {a : Postgres.Message × Postgres.World}
    (silent : c.events = []) (stepped : step c a = some d)
    (logged : .enqueued db key query params batchMs ∈ d.events) : handed c a = some (db, key) := by
  obtain ⟨outside, batchable, database, keyed⟩ := enqueued_emitted silent stepped logged
  obtain ⟨parsed, known, rfl⟩ := Option.map_eq_some_iff.mp keyed
  simp [handed, outside, batchable, database, known]

theorem Postgres.enqueued_database {c d : Postgres.Session} {a : Postgres.Message × Postgres.World}
    (silent : c.events = []) (home : enqueuesAtHome cfg c a = true) (stepped : step c a = some d)
    (logged : .enqueued db key query params batchMs ∈ d.events) :
    ownTarget cfg db = managerTarget cfg := by
  obtain ⟨outside, batchable, database, -⟩ := enqueued_emitted silent stepped logged
  rw [database]
  simpa [enqueuesAtHome, outside, batchable] using home

end

theorem batches_respect_databases (cfg : ProxyConfig) (maxBatchSize : Nat) :
    (∀ s : System (MariaDB.proxy cfg), Reach (System.step maxBatchSize)
      (fun s a => s.onClients (MariaDB.enqueuesAtHome cfg) a = true) .start s →
        s.ExecutedAtHome cfg) ∧
    (∀ s : System (Postgres.proxy cfg), Reach (System.step maxBatchSize)
      (fun s a => s.onClients (Postgres.enqueuesAtHome cfg) a = true) .start s →
        s.ExecutedAtHome cfg) ∧
    (∀ s : System (MariaDB.proxy cfg), Reach (System.step maxBatchSize)
      (fun s a => s.keepsApart MariaDB.handed a = true) .start s → s.Separated) ∧
    (∀ s : System (Postgres.proxy cfg), Reach (System.step maxBatchSize)
      (fun s a => s.keepsApart Postgres.handed a = true) .start s → s.Separated) := by
  refine ⟨?_, ?_, fun _ => System.separated_of_reach fun _ _ _ stepped _ _ _ _ _ logged =>
    MariaDB.enqueued_handed rfl stepped logged, fun _ => System.separated_of_reach
    fun _ _ _ stepped _ _ _ _ _ logged => Postgres.enqueued_handed rfl stepped logged⟩
  · intro s reach
    refine System.executedAtHome_of_requests (System.reach_sound reach) ?_
    exact System.requests_of_enqueued (fun _ c input d home stepped _ _ _ _ _ logged =>
      MariaDB.enqueued_database rfl home stepped logged) reach
  · intro s reach
    refine System.executedAtHome_of_requests (System.reach_sound reach) ?_
    exact System.requests_of_enqueued (fun _ c input d home stepped _ _ _ _ _ logged =>
      Postgres.enqueued_database rfl home stepped logged) reach

def sharded : ProxyConfig where
  default := lit "main"
  dbMap := fun db => if db = lit "b" then lit "other" else []
  pools := fun name =>
    if name = lit "main" then some ⟨lit "p", []⟩
    else if name = lit "other" then some ⟨lit "q", []⟩ else none

def hintedInsert : GoString := lit "/* batch:10 */ INSERT INTO t VALUES (1)"

def MariaDB.writing (conn : Nat) (db : String) : List (SystemAction (MariaDB.proxy sharded)) :=
  [.connect conn (({}, lit db) : MariaDB.World × GoString),
   .client conn ((.query hintedInsert, {}) : MariaDB.Input × MariaDB.World),
   .client conn ((.nextStatement, {}) : MariaDB.Input × MariaDB.World)]

def Postgres.writing (conn : Nat) (db : String) : List (SystemAction (Postgres.proxy sharded)) :=
  [.connect conn ((lit "ann", lit db) : GoString × GoString),
   .client conn ((.query (hintedInsert ++ [0]), {}) : Postgres.Message × Postgres.World)]

/-- Two calls join one group, whose timer fires; the batch is executed. -/
def flushed : List Action :=
  [.invoke 0, .call 0, .call 0, .call 0, .call 0, .invoke 1, .call 1, .call 1, .call 1, .fire 0,
   .run (.timer 0), .run (.timer 0), .run (.timer 0), .execute (.timer 0) [{}, {}]]

def System.batched {p : Proxy} (s : System p) (db₀ db₁ : String) : Bool :=
  s.manager.executed = [0, 1] && s.manager.taken (.timer 0) = [0, 1] &&
    s.requests.map (·.db) = [lit db₀, lit db₁]

/-- Two clients of the manager's own database. -/
theorem batches_respect_databases_own :
    (∃ s : System (MariaDB.proxy sharded), s.batched "tqdbproxy" "tqdbproxy" = true ∧
      s.ExecutedAtHome sharded) ∧
    (∃ s : System (Postgres.proxy sharded), s.batched "tqdbproxy" "tqdbproxy" = true ∧
      s.ExecutedAtHome sharded) ∧
    (∃ s : System (MariaDB.proxy sharded), s.batched "a" "a" = true ∧ s.Separated) ∧
    (∃ s : System (Postgres.proxy sharded), s.batched "a" "a" = true ∧ s.Separated) := by
  have all := batches_respect_databases sharded 100
  refine ⟨?_, ?_, ?_, ?_⟩
  · obtain ⟨s, reach, seen⟩ := checked_of_test (System.step 100)
      (System.onClients (MariaDB.enqueuesAtHome sharded)) System.start
      (MariaDB.writing 0 "tqdbproxy" ++ MariaDB.writing 1 "tqdbproxy" ++ flushed.map .manager)
      (System.batched · "tqdbproxy" "tqdbproxy") (by decide +kernel)
    exact ⟨s, seen, all.1 s reach⟩
  · obtain ⟨s, reach, seen⟩ := checked_of_test (System.step 100)
      (System.onClients (Postgres.enqueuesAtHome sharded)) System.start
      (Postgres.writing 0 "tqdbproxy" ++ Postgres.writing 1 "tqdbproxy" ++ flushed.map .manager)
      (System.batched · "tqdbproxy" "tqdbproxy") (by decide +kernel)
    exact ⟨s, seen, all.2.1 s reach⟩
  · obtain ⟨s, reach, seen⟩ := checked_of_test (System.step 100)
      (System.keepsApart MariaDB.handed) System.start
      (MariaDB.writing 0 "a" ++ MariaDB.writing 1 "a" ++ flushed.map .manager)
      (System.batched · "a" "a") (by decide +kernel)
    exact ⟨s, seen, all.2.2.1 s reach⟩
  · obtain ⟨s, reach, seen⟩ := checked_of_test (System.step 100)
      (System.keepsApart Postgres.handed) System.start
      (Postgres.writing 0 "a" ++ Postgres.writing 1 "a" ++ flushed.map .manager)
      (System.batched · "a" "a") (by decide +kernel)
    exact ⟨s, seen, all.2.2.2 s reach⟩

/-- Clients of two databases on two pools send the same text: both writes are in
one batch, and neither is executed in its database. -/
theorem batches_mix_databases :
    ownTarget sharded (lit "a") ≠ managerTarget sharded ∧
    ownTarget sharded (lit "b") ≠ managerTarget sharded ∧
    (∃ s : System (MariaDB.proxy sharded),
      Reach (System.step 100) free .start s ∧ s.batched "a" "b" = true) ∧
    (∃ s : System (Postgres.proxy sharded),
      Reach (System.step 100) free .start s ∧ s.batched "a" "b" = true) := by
  refine ⟨by decide, by decide, ?_, ?_⟩
  · exact free_of_test (System.step 100) System.start
      (MariaDB.writing 0 "a" ++ MariaDB.writing 1 "b" ++ flushed.map .manager)
      (System.batched · "a" "b") (by decide +kernel)
  · exact free_of_test (System.step 100) System.start
      (Postgres.writing 0 "a" ++ Postgres.writing 1 "b" ++ flushed.map .manager)
      (System.batched · "a" "b") (by decide +kernel)

end TQDBProxy
