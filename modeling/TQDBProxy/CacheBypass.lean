import TQDBProxy.GuardedRuns
import TQDBProxy.MariaDBSteps
import TQDBProxy.PostgresSteps

/-! The promise that the cache is bypassed during transactions. None of the four paths to
the cache, text and prepared in either proxy, reads the transaction flag. -/

namespace TQDBProxy

open GuardedRuns

def Event.cacheFlag : Event → Option Bool
  | .served inTransaction _ | .stored inTransaction _ => some inTransaction
  | _ => none

def Bypassed (events : List Event) : Prop := ∀ e ∈ events, e.cacheFlag ≠ some true

theorem Bypassed.not_mem {events : List Event} (bypassed : Bypassed events) (key : CacheKey) :
    .served true key ∉ events ∧ .stored true key ∉ events :=
  ⟨fun mem => bypassed _ mem rfl, fun mem => bypassed _ mem rfl⟩

theorem cacheFlag_of_plain {e : Event} (plain : e.plain = true) : e.cacheFlag ≠ some true := by
  cases e <;> simp_all [Event.plain, Event.cacheFlag]

namespace MariaDB

variable {cfg : ProxyConfig} {w : World} {db : GoString} {s t : Session}

def bypasses (s : Session) (a : Input × World) : Bool := !(s.inTransaction && cacheableInput s a.1)

theorem emitted_cacheFlag {input : Input} {e : Event} {flag : Bool}
    (emitted : Emitted cfg s input e) (used : e.cacheFlag = some flag) :
      flag = s.inTransaction ∧ cacheableInput s input = true := by
  cases e <;> cases used <;> exact emitted

theorem bypassed_step {a : Input × World} (before : Bypassed s.events) (guard : bypasses s a = true)
    (taken : step cfg s a = some t) : Bypassed t.events := by
  intro e mem inside
  rcases step_emitted taken e mem with old | new
  · exact before e old inside
  · obtain ⟨flag, cacheable⟩ := emitted_cacheFlag new inside
    simp [bypasses, ← flag, cacheable] at guard

theorem bypassed_handleConnection (connected : handleConnection cfg w db = some s) :
    Bypassed s.events := by
  obtain ⟨pool, -, start⟩ := handleConnection_cases connected
  have dialled :
    Bypassed (greeted cfg pool db).events := by simp [Bypassed, Event.cacheFlag, greeted]
  rcases start with ⟨-, rfl⟩ | ⟨-, rfl⟩
  · exact dialled
  · intro e mem
    rcases (moves_exchange (L := ⟨False, False, fun e => e.cacheFlag ≠ some true,
      fun _ => cacheFlag_of_plain⟩) False.elim False.elim).emitted e mem with old | new
    · exact dialled e old
    · exact new

end MariaDB

namespace Postgres

variable {cfg : ProxyConfig} {user database : GoString} {s t : Session}

def bypasses (s : Session) (a : Message × World) : Bool :=
  !(flagAfter s a.1 && cacheableMessage s a.1)

theorem emitted_cacheFlag {message : Message} {e : Event} {flag : Bool}
    (emitted : Emitted s message e) (used : e.cacheFlag = some flag) :
    flag = flagAfter s message ∧ cacheableMessage s message = true := by
  cases e <;> cases used <;> exact emitted

theorem bypassed_step {a : Message × World} (before : Bypassed s.events)
    (guard : bypasses s a = true) (taken : step s a = some t) : Bypassed t.events := by
  intro e mem inside
  rcases step_emitted taken e mem with old | new
  · exact before e old inside
  · obtain ⟨flag, cacheable⟩ := emitted_cacheFlag new inside
    simp [bypasses, ← flag, cacheable] at guard

theorem bypassed_handleConnection (connected : handleConnection cfg user database = some s) :
    Bypassed s.events := by
  unfold handleConnection at connected
  dsimp only at connected
  split at connected
  · cases connected
  · cases connected
    simp [Bypassed, Event.cacheFlag]

end Postgres

theorem cache_bypassed_in_transactions (cfg : ProxyConfig) :
    (∀ w db init s, MariaDB.handleConnection cfg w db = some init →
      Reach (MariaDB.step cfg) (fun s a => MariaDB.bypasses s a = true) init s →
        ∀ key, .served true key ∉ s.events ∧ .stored true key ∉ s.events) ∧
    (∀ user database init s, Postgres.handleConnection cfg user database = some init →
      Reach Postgres.step (fun s a => Postgres.bypasses s a = true) init s →
        ∀ key, .served true key ∉ s.events ∧ .stored true key ∉ s.events) := by
  constructor
  · intro w db init s connected run
    have bypassed : Bypassed s.events :=
      Reach.invariant (P := fun s => Bypassed s.events)
        (MariaDB.bypassed_handleConnection connected)
        (fun _ _ _ => MariaDB.bypassed_step) run
    exact bypassed.not_mem
  · intro user database init s connected run
    have bypassed : Bypassed s.events :=
      Reach.invariant (P := fun s => Bypassed s.events)
        (Postgres.bypassed_handleConnection connected)
        (fun _ _ _ => Postgres.bypassed_step) run
    exact bypassed.not_mem

def selectText : GoString := lit "SELECT a FROM t"

/-- A result is cached before the transaction, and in it the hint is left out. -/
theorem cache_bypassed_plain_select :
    (∃ s : MariaDB.Session, .stored false (.text selectText) ∈ s.events ∧
      s.inTransaction = true ∧ ∀ key, .served true key ∉ s.events ∧ .stored true key ∉ s.events) ∧
    (∃ s : Postgres.Session, .stored false (.text selectText) ∈ s.events ∧
      s.inTransaction = true ∧ ∀ key, .served true key ∉ s.events ∧
        .stored true key ∉ s.events) := by
  constructor
  · obtain ⟨s, reach, seen⟩ := checked_of_test (MariaDB.step MariaDB.replicated) MariaDB.bypasses
      MariaDB.client (MariaDB.sending ["/* ttl:60 */ SELECT a FROM t", "BEGIN", "SELECT a FROM t"])
      (fun s => .stored false (.text selectText) ∈ s.events && s.inTransaction) (by decide +kernel)
    simp only [Bool.and_eq_true, decide_eq_true_eq] at seen
    exact ⟨s, seen.1, seen.2,
      (cache_bypassed_in_transactions _).1 _ _ _ _ MariaDB.client_connected reach⟩
  · obtain ⟨s, reach, seen⟩ := checked_of_test Postgres.step Postgres.bypasses Postgres.client
      (Postgres.sending ["/* ttl:60 */ SELECT a FROM t", "BEGIN", "SELECT a FROM t"])
      (fun s => .stored false (.text selectText) ∈ s.events && s.inTransaction) (by decide +kernel)
    simp only [Bool.and_eq_true, decide_eq_true_eq] at seen
    exact ⟨s, seen.1, seen.2,
      (cache_bypassed_in_transactions _).2 _ _ _ _ Postgres.client_connected reach⟩

/-- In both proxies a cacheable SELECT inside a transaction fills the cache, and
the next one is answered from it. -/
theorem cache_used_in_transaction :
    (MariaDB.handleConnection MariaDB.replicated {} [] = some MariaDB.client ∧
      ∃ s, Reach (MariaDB.step MariaDB.replicated) free MariaDB.client s ∧
        .stored true (.text selectText) ∈ s.events ∧ .served true (.text selectText) ∈ s.events) ∧
    (Postgres.handleConnection Postgres.single (lit "ann") (lit "shop") = some Postgres.client ∧
      ∃ s, Reach Postgres.step free Postgres.client s ∧
        .stored true (.text selectText) ∈ s.events ∧
          .served true (.text selectText) ∈ s.events) := by
  constructor
  · refine ⟨MariaDB.client_connected, ?_⟩
    obtain ⟨s, reach, seen⟩ := free_of_test (MariaDB.step MariaDB.replicated) MariaDB.client
      (MariaDB.sending ["BEGIN", "/* ttl:60 */ SELECT a FROM t"] ++
        [(.query (lit "/* ttl:60 */ SELECT a FROM t"), ({} : MariaDB.World)),
          (.nextStatement, { get := some ([1], .fresh) })])
      (fun s => .stored true (.text selectText) ∈ s.events &&
        .served true (.text selectText) ∈ s.events) (by decide +kernel)
    exact ⟨s, reach, by simpa using seen⟩
  · refine ⟨Postgres.client_connected, ?_⟩
    obtain ⟨s, reach, seen⟩ := free_of_test Postgres.step Postgres.client
      (Postgres.sending ["BEGIN", "/* ttl:60 */ SELECT a FROM t"] ++
        [(.query (lit "/* ttl:60 */ SELECT a FROM t" ++ [0]), { get := some ([1], .fresh) })])
      (fun s => .stored true (.text selectText) ∈ s.events &&
        .served true (.text selectText) ∈ s.events) (by decide +kernel)
    exact ⟨s, reach, by simpa using seen⟩

end TQDBProxy
