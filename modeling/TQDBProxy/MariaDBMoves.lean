import TQDBProxy.MariaDBSession

/-! What the handlers of the MariaDB proxy do to the connection, the transaction
state and the log, stated once for each handler. Every run property of a client
connection is derived from these facts. -/

namespace TQDBProxy.MariaDB

open TQDBProxy.Parser SqlTokens

/-- What is asked of a handler: that the connection `stays`, that it lets the
backend start no transaction when it is `silent`, and which events it `emits`. -/
structure Limits where
  stays : Prop
  silent : Prop
  emits : Event → Prop
  plain : ∀ e, e.plain = true → emits e

structure Moves (L : Limits) (s t : Session) : Prop where
  status : t.statusInTrans = s.statusInTrans
  flag : t.inTransaction = s.inTransaction
  begun : t.begun = s.begun
  stays : L.stays →
    t.backend = s.backend ∧ t.backendAddr = s.backendAddr ∧ t.backendPool = s.backendPool
  sent : ∀ b conn c, .sent b conn c ∈ t.events →
    .sent b conn c ∈ s.events ∨ (b = s.begun ∧ (L.stays → s.backend = some conn))
  opened : L.silent → t.sessionOpen = true → s.sessionOpen = true
  emitted : ∀ e ∈ t.events, e ∈ s.events ∨ L.emits e

variable {L : Limits} {cfg : ProxyConfig} {w : World} {s t u : Session} {parsed : ParsedQuery}
  {arrived : Option Nat}

theorem moves_refl (L : Limits) (s : Session) : Moves L s s where
  status := rfl
  flag := rfl
  begun := rfl
  stays := fun _ => ⟨rfl, rfl, rfl⟩
  sent := fun _ _ _ mem => .inl mem
  opened := fun _ opened => opened
  emitted := fun _ mem => .inl mem

theorem Moves.trans (first : Moves L s t) (second : Moves L t u) : Moves L s u where
  status := second.status.trans first.status
  flag := second.flag.trans first.flag
  begun := second.begun.trans first.begun
  stays := by
    intro inside
    obtain ⟨b₁, a₁, p₁⟩ := first.stays inside
    obtain ⟨b₂, a₂, p₂⟩ := second.stays inside
    exact ⟨b₂.trans b₁, a₂.trans a₁, p₂.trans p₁⟩
  sent := by
    intro b conn c mem
    rcases second.sent b conn c mem with old | ⟨tag, current⟩
    · exact first.sent b conn c old
    · refine .inr ⟨tag.trans first.begun, ?_⟩
      intro inside
      rw [← (first.stays inside).1]
      exact current inside
  opened := fun silent opened => first.opened silent (second.opened silent opened)
  emitted := by
    intro e mem
    rcases second.emitted e mem with old | new
    · exact first.emitted e old
    · exact .inr new

def Session.route (s : Session) :
    Bool × Bool × Option Nat × Option Nat × GoString × GoString × Bool × List Event :=
  (s.statusInTrans, s.inTransaction, s.begun, s.backend, s.backendAddr, s.backendPool,
    s.sessionOpen, s.events)

theorem Moves.congr (moves : Moves L s t) (same : u.route = t.route) : Moves L s u := by
  simp only [Session.route, Prod.mk.injEq] at same
  obtain ⟨status, flag, begun, backend, addr, pool, opened, events⟩ := same
  constructor
  · rw [status, moves.status]
  · rw [flag, moves.flag]
  · rw [begun, moves.begun]
  · intro inside
    rw [backend, addr, pool]
    exact moves.stays inside
  · rw [events]
    exact moves.sent
  · rw [opened]
    exact moves.opened
  · rw [events]
    exact moves.emitted

theorem moves_note {e : Event} (other : ∀ b conn c, e ≠ .sent b conn c) (allowed : L.emits e) :
    Moves L s (s.note e) where
  status := rfl
  flag := rfl
  begun := rfl
  stays := fun _ => ⟨rfl, rfl, rfl⟩
  sent := by
    intro b conn c mem
    rcases List.mem_cons.mp mem with same | old
    · exact absurd same.symm (other b conn c)
    · exact .inl old
  opened := fun _ opened => opened
  emitted := by
    intro e' mem
    rcases List.mem_cons.mp mem with same | old
    · rw [same]
      exact .inr allowed
    · exact .inl old

theorem moves_closeBackend : Moves L s s.closeBackend := by
  unfold Session.closeBackend
  split
  · exact moves_note (by simp) (L.plain _ rfl)
  · exact moves_refl L s

theorem moves_resetBackend (leaves : ¬ L.stays) : Moves L s s.resetBackend := by
  have closed : Moves L s s.closeBackend := moves_closeBackend
  refine ⟨closed.status, closed.flag, closed.begun, fun inside => absurd inside leaves,
    closed.sent, ?_,
    closed.emitted⟩
  intro _ opened
  cases opened

theorem moves_switchTo {addr name pool : GoString} (leaves : ¬ L.stays) :
    Moves L s (s.switchTo addr name pool) := by
  have dialed : Moves L s (s.note (.dialed s.dialled addr s.db)).closeBackend :=
    (moves_note (by simp) (L.plain _ rfl)).trans moves_closeBackend
  refine ⟨dialed.status, dialed.flag, dialed.begun, fun inside => absurd inside leaves,
    dialed.sent, ?_,
    dialed.emitted⟩
  intro _ opened
  cases opened

theorem moves_sent {conn : Nat} {c : Command} (current : s.backend = some conn) :
    Moves L s (s.note (.sent s.begun conn c)) where
  status := rfl
  flag := rfl
  begun := rfl
  stays := fun _ => ⟨rfl, rfl, rfl⟩
  sent := by
    intro b conn' c' mem
    rcases List.mem_cons.mp mem with same | old
    · cases same
      exact .inr ⟨rfl, fun _ => current⟩
    · exact .inl old
  opened := fun _ opened => opened
  emitted := by
    intro e mem
    rcases List.mem_cons.mp mem with same | old
    · rw [same]
      exact .inr (L.plain _ rfl)
    · exact .inl old

def quietCommand (s : Session) (c : Command) : Bool :=
  match s.backend with
  | none => true
  | some conn => (serverText s conn c).all (noStart .mysql)

theorem moves_exchange {c : Command} (alive : L.stays → w.reply.isSome = true)
    (quiet : L.silent → quietCommand s c = true) : Moves L s (exchange w c s).2 := by
  unfold exchange
  split
  · exact (moves_refl L s).congr rfl
  · rename_i conn current
    have sent : Moves L s (s.note (.sent s.begun conn c)) := moves_sent current
    dsimp only
    split
    · rename_i lost
      refine sent.trans (moves_resetBackend fun inside => ?_)
      simpa [lost] using alive inside
    · refine ⟨sent.status, sent.flag, sent.begun, sent.stays, sent.sent, ?_, sent.emitted⟩
      intro silent after
      have texts := quiet silent
      simp only [quietCommand, current] at texts
      simp only [sessionAfter] at after
      split at after
      · rename_i text found
        have known : serverText s conn c = some text := found
        rw [known] at texts
        exact openAfter_of_noStart texts after
      · exact after

theorem exchange_alive {c : Command} {response : List UInt8}
    (made : exchange w c s = (some response, t)) :
    t.backend = s.backend ∧ s.backend.isSome = true := by
  unfold exchange at made
  split at made
  · cases made
  · rename_i current
    dsimp only at made
    split at made
    · cases made
    · cases made
      exact ⟨rfl, by simp [current]⟩

theorem quietCommand_query {text : GoString} (quiet : noStart .mysql text = true) :
    quietCommand s (.query text) = true := by
  unfold quietCommand
  split
  · rfl
  · exact quiet

theorem moves_relay {c : Command} (alive : L.stays → w.reply.isSome = true)
    (quiet : L.silent → quietCommand s c = true) : Moves L s (relay w c s).2 := by
  have moves : Moves L s (exchange w c s).2 := moves_exchange alive quiet
  unfold relay
  split <;> rename_i made <;> rw [made] at moves <;> exact moves

theorem moves_ensureBackendConn {addr name pool : GoString}
    (home : L.stays → addr = s.backendAddr ∧ s.backend.isSome = true) :
    Moves L s (ensureBackendConn w addr name pool s).2 := by
  unfold ensureBackendConn
  split
  · exact moves_refl L s
  · rename_i away
    split
    · exact moves_switchTo fun inside => away (home inside)
    · exact moves_refl L s

def routesHome (cfg : ProxyConfig) (s : Session) (db : GoString) : Bool :=
  match cfg.pools (cfg.shardName db) with
  | none => true
  | some pool => cfg.shardName db = s.backendPool || pool.getPrimary = s.backendAddr

theorem moves_ensureBackend {db : GoString}
    (home : L.stays → routesHome cfg s db = true ∧ s.backend.isSome = true) :
    Moves L s (ensureBackend cfg w db s).2 := by
  unfold ensureBackend
  dsimp only
  split
  · exact moves_refl L s
  · rename_i pool found
    have noted : Moves L s { s with lastQueryShard := cfg.shardName db } :=
      (moves_refl L s).congr rfl
    split
    · exact noted
    · rename_i elsewhere
      refine noted.trans (moves_ensureBackendConn ?_)
      intro inside
      obtain ⟨target, some⟩ := home inside
      simp only [routesHome, found, Bool.or_eq_true, decide_eq_true_eq] at target
      rcases target with same | near
      · exact absurd ⟨same, some⟩ elsewhere
      · exact ⟨near, some⟩

theorem moves_handleUse {dbName : GoString} (alive : L.stays → w.reply.isSome = true)
    (home : L.stays → routesHome cfg s dbName = true ∧ s.backend.isSome = true)
    (quiet : L.silent → noStart .mysql (useStatement dbName) = true) :
    Moves L s (handleUse cfg w dbName s).2 := by
  have routed : Moves L s (ensureBackend cfg w dbName s).2 := moves_ensureBackend home
  unfold handleUse
  split
  · rename_i made
    rw [made] at routed
    exact routed
  · rename_i made
    rw [made] at routed
    refine Moves.trans ?_ (moves_relay alive fun silent => quietCommand_query (quiet silent))
    exact routed.congr rfl

/-- The status query depends on what was noted of the last statements and on the
shard of no database. -/
def statusText (cfg : ProxyConfig) (s : Session) : GoString :=
  statusQuery cfg { s with lastQueryShard := cfg.shardName [] }

theorem ensureBackend_status (made : ensureBackend cfg w [] s = (none, t)) :
    statusQuery cfg t = statusText cfg s := by
  unfold ensureBackend ensureBackendConn at made
  dsimp only at made
  split at made
  · cases made
  · split at made
    · cases made
      rfl
    · split at made
      · cases made
        rfl
      · split at made
        · cases made
          simp only [Session.switchTo, Session.closeBackend]
          split <;> rfl
        · cases made

theorem moves_handleShowTQDBStatus (alive : L.stays → w.reply.isSome = true)
    (home : L.stays → routesHome cfg s [] = true ∧ s.backend.isSome = true)
    (quiet : L.silent → noStart .mysql (statusText cfg s) = true) :
    Moves L s (handleShowTQDBStatus cfg w s).2 := by
  have routed : Moves L s (ensureBackend cfg w [] s).2 := moves_ensureBackend home
  unfold handleShowTQDBStatus
  split
  · rename_i made
    rw [made] at routed
    exact routed
  · rename_i made
    rw [made] at routed
    refine routed.trans (moves_relay alive fun silent => quietCommand_query ?_)
    rw [ensureBackend_status made]
    exact quiet silent

theorem moves_handleLocalInfile (alive : L.stays → w.infile ≠ .backendFails) :
    Moves L s (handleLocalInfile w s).2 := by
  unfold handleLocalInfile
  split
  · exact moves_refl L s
  · rename_i lost
    exact moves_resetBackend fun inside => alive inside lost
  · exact moves_refl L s

theorem moves_answered (name : GoString) : Moves L s (answered name s) :=
  (moves_refl L s).congr rfl

theorem writeClient_session : (writeClient w s).2 = s := rfl

theorem moves_hit {name : String} {key : CacheKey}
    (allowed : L.emits (.served s.inTransaction key)) :
    Moves L s (hit name key s) :=
  (moves_note (by simp) allowed).congr rfl

theorem moves_storeResult {key : CacheKey} {ttl : Nat}
    (allowed : L.emits (.stored s.inTransaction key)) : Moves L s (storeResult key ttl s) := by
  unfold storeResult
  split
  · exact moves_note (by simp) allowed
  · exact moves_refl L s

theorem moves_cancelInflight : Moves L s (cancelInflight parsed s) := by
  unfold cancelInflight
  split
  · exact moves_note (by simp) (L.plain _ rfl)
  · exact moves_refl L s

theorem moves_noteWrite (allowed : parsed.isBatchable = true → ∀ conn, s.backend = some conn →
      L.emits (.write arrived (.backend conn))) :
    Moves L s (noteWrite parsed arrived s) := by
  unfold noteWrite
  split
  · rename_i conn current
    split
    · rename_i batchable
      exact moves_note (by simp) (allowed batchable conn current)
    · exact moves_refl L s
  · exact moves_refl L s

theorem noteWrite_backend : (noteWrite parsed arrived s).backend = s.backend := by
  unfold noteWrite
  split
  · split <;> rfl
  · rfl

theorem serverText_noteWrite {conn : Nat} {c : Command} :
    serverText (noteWrite parsed arrived s) conn c = serverText s conn c := by
  unfold noteWrite
  split
  · split <;> rfl
  · rfl

def atPrimary (cfg : ProxyConfig) (s : Session) : Bool :=
  match cfg.pools s.backendPool with
  | none => true
  | some pool => pool.getPrimary = s.backendAddr

theorem ensureBackendConn_home {addr name pool : GoString} (near : addr = s.backendAddr)
    (some : s.backend.isSome = true) : ensureBackendConn w addr name pool s = (none, s) := by
  unfold ensureBackendConn
  rw [if_pos ⟨near, some⟩]

theorem moves_forwardQuery
    (alive : L.stays → w.reply.isSome = true ∧ w.infile ≠ .backendFails)
    (home : L.stays → atPrimary cfg s = true ∧ s.backend.isSome = true ∧ s.statusInTrans = true)
    (quiet : L.silent → noStart .mysql parsed.query = true)
    (written : parsed.isBatchable = true → ∀ conn,
      (atPrimary cfg s = true → s.backend.isSome = true → s.backend = some conn) →
        L.emits (.write arrived (.backend conn)))
    (stored : parsed.isCacheable = true → L.emits (.stored s.inTransaction (.text parsed.query))) :
    Moves L s (forwardQuery cfg w parsed arrived s).2 := by
  unfold forwardQuery
  split
  · exact (moves_refl L s).congr rfl
  · rename_i pool found
    have connected : Moves L s (ensureBackendConn w (selectBackend w pool parsed s).1
        (selectBackend w pool parsed s).2 s.backendPool s).2 := by
      refine moves_ensureBackendConn fun inside => ?_
      obtain ⟨near, some, status⟩ := home inside
      simp only [atPrimary, found, decide_eq_true_eq] at near
      simp only [selectBackend, status, Bool.not_true, Bool.and_false, Bool.false_eq_true, if_false]
      exact ⟨near, some⟩
    dsimp only
    split
    · rename_i made
      rw [made] at connected
      exact connected.trans moves_cancelInflight
    · rename_i v made
      have noted : Moves L v (noteWrite parsed arrived v) := by
        refine moves_noteWrite fun batchable conn current => written batchable conn fun near some =>
          ?_
        simp only [atPrimary, found, decide_eq_true_eq] at near
        rw [ensureBackendConn_home _ some] at made
        · cases made
          exact current
        · simpa [selectBackend, not_cacheable_of_batchable batchable] using near
      rw [made] at connected
      have exchanged :
          Moves L s (exchange w (.query parsed.query) (noteWrite parsed arrived v)).2 :=
        (connected.trans noted).trans (moves_exchange (fun inside => (alive inside).1)
          fun silent => quietCommand_query (quiet silent))
      split
      · rename_i sent
        rw [sent] at exchanged
        exact exchanged.trans moves_cancelInflight
      · rename_i sent
        rw [sent] at exchanged
        split
        · exact exchanged.trans (moves_handleLocalInfile fun inside => (alive inside).2)
        split
        · exact exchanged.congr rfl
        · rw [writeClient_session]
          have named := exchanged.trans (moves_answered (selectBackend w pool parsed s).2)
          split
          · rename_i cacheable
            refine named.trans (moves_storeResult ?_)
            rw [named.flag]
            exact stored cacheable
          · exact named

theorem moves_executeImmediateWrite {query : GoString} (leaves : ¬ L.stays)
    (quiet : L.silent → noStart .mysql query = true) :
    Moves L s (executeImmediateWrite cfg w query s).2 := by
  unfold executeImmediateWrite
  split
  · exact (moves_refl L s).congr rfl
  · rename_i pool found
    have connected :
        Moves L s (ensureBackendConn w pool.getPrimary (lit "primary") s.backendPool s).2 :=
      moves_ensureBackendConn fun inside => absurd inside leaves
    split
    · rename_i made
      rw [made] at connected
      exact connected
    · rename_i v made
      rw [made] at connected
      have exchanged : Moves L s (exchange w (.query query) v).2 :=
        connected.trans (moves_exchange (fun inside => absurd inside leaves)
          fun silent => quietCommand_query (quiet silent))
      split
      · rename_i sent
        rw [sent] at exchanged
        exact exchanged
      · rename_i sent
        rw [sent] at exchanged
        exact exchanged.congr rfl

theorem moves_handleBatchedWrite {query file : GoString} {batchMs : Nat} (leaves : ¬ L.stays)
    (quiet : L.silent → noStart .mysql query = true) (managed : L.emits (.write arrived .manager))
    (enqueued : L.emits (.enqueued s.db (parse query).getBatchKey query [] batchMs)) :
    Moves L s (handleBatchedWrite cfg w query batchMs file arrived s).2 := by
  have noted : Moves L s ((s.note (.write arrived .manager)).note
      (.enqueued s.db (parse query).getBatchKey query [] batchMs)) :=
    (moves_note (by simp) managed).trans (moves_note (by simp) enqueued)
  unfold handleBatchedWrite
  dsimp only
  split
  · exact noted.congr rfl
  split
  · exact noted.congr rfl
  · split
    · exact noted.trans (moves_executeImmediateWrite leaves quiet)
    · exact noted

theorem serveCached_hit (served : serveCached w parsed s = some t) :
    parsed.isCacheable = true ∧ ∃ name, t = hit name (.text parsed.query) s := by
  unfold serveCached at served
  split at served
  · cases served
  · rename_i cacheable
    refine ⟨by simpa using cacheable, ?_⟩
    split at served
    · exact ⟨_, (Option.some.inj served).symm⟩
    · exact ⟨_, (Option.some.inj served).symm⟩
    · split at served
      · exact ⟨_, (Option.some.inj served).symm⟩
      · cases served

theorem moves_serveCached (allowed : parsed.isCacheable = true →
      L.emits (.served s.inTransaction (.text parsed.query)))
    (served : serveCached w parsed s = some t) : Moves L s t := by
  obtain ⟨cacheable, name, rfl⟩ := serveCached_hit served
  exact moves_hit (allowed cacheable)

theorem moves_routeQualified
    (home : L.stays → (parsed.db = [] ∨ parsed.db = s.db ∨ routesHome cfg s parsed.db = true) ∧
      s.backend.isSome = true) :
    Moves L s (routeQualified cfg w parsed s).2 := by
  unfold routeQualified
  split
  · rename_i qualified
    have routed : Moves L s (ensureBackend cfg w parsed.db s).2 := by
      refine moves_ensureBackend fun inside => ?_
      obtain ⟨near, some⟩ := home inside
      simp only [qualified.1, qualified.2, false_or] at near
      exact ⟨near, some⟩
    split
    · rename_i made
      rw [made] at routed
      exact routed
    · rename_i made
      rw [made] at routed
      exact routed.congr rfl
  · exact moves_refl L s

theorem moves_handleOther (inside : L.stays → s.inTransaction = true)
    (alive : L.stays → w.reply.isSome = true ∧ w.infile ≠ .backendFails)
    (home : L.stays → atPrimary cfg s = true ∧ s.backend.isSome = true ∧ s.statusInTrans = true)
    (quiet : L.silent → noStart .mysql parsed.query = true)
    (managed : s.inTransaction = false → parsed.isBatchable = true →
      L.emits (.write arrived .manager))
    (enqueued : s.inTransaction = false → parsed.isBatchable = true →
      L.emits (.enqueued s.db (parse parsed.query).getBatchKey parsed.query [] parsed.batchMs))
    (written : parsed.isBatchable = true → ∀ conn,
      (atPrimary cfg s = true → s.backend.isSome = true → s.backend = some conn) →
        L.emits (.write arrived (.backend conn)))
    (cached : parsed.isCacheable = true → L.emits (.served s.inTransaction (.text parsed.query)) ∧
      L.emits (.stored s.inTransaction (.text parsed.query))) :
    Moves L s (handleOther cfg w parsed arrived s).2 := by
  unfold handleOther
  split
  · rename_i free
    simp only [Bool.and_eq_true, Bool.not_eq_true'] at free
    obtain ⟨⟨outside, -⟩, batchable⟩ := free
    refine moves_handleBatchedWrite ?_ quiet (managed outside batchable)
      (enqueued outside batchable)
    intro stays
    simp [inside stays] at outside
  split
  · exact (moves_refl L s).congr rfl
  · split
    · rename_i served
      exact moves_serveCached (fun cacheable => (cached cacheable).1) served
    · exact moves_forwardQuery alive home quiet written fun cacheable => (cached cacheable).2

theorem moves_handlePrepare {query : GoString} (alive : L.stays → w.reply.isSome = true ∧
    w.more = true) :
    Moves L s (handlePrepare w query s).2 := by
  have exchanged : Moves L s (exchange w (.stmtPrepare query) s).2 := by
    refine moves_exchange (fun inside => (alive inside).1) fun _ => ?_
    unfold quietCommand
    split <;> rfl
  unfold handlePrepare
  split
  · rename_i made
    rw [made] at exchanged
    exact exchanged
  · rename_i made
    rw [made] at exchanged
    split
    · split
      · exact exchanged.congr rfl
      · dsimp only
        split
        · rename_i cut
          refine Moves.trans ?_ (moves_resetBackend fun inside => ?_)
          · exact exchanged.congr rfl
          · simp [(alive inside).2] at cut
        · exact exchanged.congr rfl
    · exact exchanged

theorem moves_executePrepared {data : List UInt8}
    (alive : L.stays → w.reply.isSome = true ∧ w.infile ≠ .backendFails)
    (quiet : L.silent → quietCommand s (.stmtExecute data) = true)
    (written : parsed.isBatchable = true → ∀ conn, s.backend = some conn →
      L.emits (.write s.openSession (.backend conn)))
    (cached : parsed.isCacheable = true → ∀ key,
      L.emits (.served s.inTransaction key) ∧ L.emits (.stored s.inTransaction key)) :
    Moves L s (executePrepared w parsed data s).2 := by
  unfold executePrepared servePrepared
  split
  · rename_i served
    split at served
    · rename_i cacheable
      cases served
      exact moves_hit (cached (by simp_all) _).1
    · cases served
  · have noted : Moves L s (noteWrite parsed s.openSession s) := moves_noteWrite written
    have exchanged :
        Moves L s (exchange w (.stmtExecute data) (noteWrite parsed s.openSession s)).2 := by
      refine noted.trans (moves_exchange (fun inside => (alive inside).1) fun silent => ?_)
      have texts := quiet silent
      unfold quietCommand at texts ⊢
      simp only [noteWrite_backend, serverText_noteWrite]
      exact texts
    split
    · rename_i made
      rw [made] at exchanged
      exact exchanged
    · rename_i made
      rw [made] at exchanged
      split
      · exact exchanged.trans (moves_handleLocalInfile fun inside => (alive inside).2)
      · dsimp only
        rw [writeClient_session]
        split
        · rename_i cacheable
          refine (exchanged.trans (moves_storeResult ?_)).trans (moves_answered _)
          rw [exchanged.flag]
          simp only [Bool.and_eq_true] at cacheable
          exact (cached cacheable.1 _).2
        · exact exchanged.trans (moves_answered _)

theorem moves_handleBatchedPreparedExecute {data : List UInt8} {params : List Value}
    (leaves : ¬ L.stays) (quiet : L.silent → quietCommand s (.stmtExecute data) = true)
    (managed : L.emits (.write s.openSession .manager))
    (enqueued : L.emits (.enqueued s.db parsed.getBatchKey parsed.query params parsed.batchMs)) :
    Moves L s (handleBatchedPreparedExecute w data parsed params s).2 := by
  have noted : Moves L s ((s.note (.write s.openSession .manager)).note
      (.enqueued s.db parsed.getBatchKey parsed.query params parsed.batchMs)) :=
    (moves_note (by simp) managed).trans (moves_note (by simp) enqueued)
  unfold handleBatchedPreparedExecute
  dsimp only
  split
  · exact noted.congr rfl
  split
  · exact noted.congr rfl
  · split
    · have exchanged := noted.trans (moves_exchange (w := w) (c := .stmtExecute data)
        (fun inside => absurd inside leaves) quiet)
      split
      · rename_i made
        rw [made] at exchanged
        exact exchanged
      · rename_i made
        rw [made] at exchanged
        exact exchanged.congr rfl
    · exact noted

def preparedFor (s : Session) (data : List UInt8) : Option ParsedQuery :=
  (s.preparedStatements.find? (·.1 == stmtID data)).map (·.2)

theorem moves_handleExecute {data : List UInt8} (inside : L.stays → s.inTransaction = true)
    (alive : L.stays → w.reply.isSome = true ∧ w.infile ≠ .backendFails)
    (quiet : L.silent → quietCommand s (.stmtExecute data) = true)
    (managed : s.inTransaction = false → (preparedFor s data).any (·.isBatchable) = true →
      L.emits (.write s.openSession .manager))
    (enqueued : s.inTransaction = false → (preparedFor s data).any (·.isBatchable) = true →
      ∀ parsed params, preparedFor s data = some parsed →
        decodeStmtParams data parsed.query = .ok params →
        L.emits (.enqueued s.db parsed.getBatchKey parsed.query params parsed.batchMs))
    (written : (preparedFor s data).any (·.isBatchable) = true → ∀ conn, s.backend = some conn →
      L.emits (.write s.openSession (.backend conn)))
    (cached : (preparedFor s data).any (·.isCacheable) = true → ∀ key,
      L.emits (.served s.inTransaction key) ∧ L.emits (.stored s.inTransaction key)) :
    Moves L s (handleExecute w data s).2 := by
  unfold handleExecute
  split
  · exact moves_refl L s
  · split
    · exact moves_refl L s
    · rename_i id parsed found
      have direct : Moves L s (executePrepared w parsed data s).2 := by
        refine moves_executePrepared alive quiet (fun batchable => written ?_)
          fun cacheable => cached ?_
        · simpa [preparedFor, found] using batchable
        · simpa [preparedFor, found] using cacheable
      split
      · rename_i free
        simp only [Bool.and_eq_true, Bool.not_eq_true'] at free
        obtain ⟨⟨outside, -⟩, batchable⟩ := free
        have known : (preparedFor s data).any (·.isBatchable) = true := by
          simpa [preparedFor, found] using batchable
        split
        · exact (moves_refl L s).congr rfl
        · rename_i params decoded
          refine moves_handleBatchedPreparedExecute ?_ quiet (managed outside known)
            (enqueued outside known _ _ (by simp [preparedFor, found]) decoded)
          intro stays
          simp [inside stays] at outside
        · exact direct
      · exact direct

theorem moves_handleStmtClose {data : List UInt8} (alive : L.stays → w.reply.isSome = true) :
    Moves L s (handleStmtClose w data s).2 := by
  have start : Moves L s (if 4 ≤ data.length then
      { s with preparedStatements := s.preparedStatements.filter (·.1 != stmtID data) } else
        s) := by
    split
    · exact (moves_refl L s).congr rfl
    · exact moves_refl L s
  have exchanged := start.trans (moves_exchange (w := w) (c := .stmtClose data) alive ?_)
  · unfold handleStmtClose
    dsimp only
    split <;> rename_i made <;> rw [made] at exchanged <;> exact exchanged
  · intro _
    unfold quietCommand
    split <;> rfl

theorem moves_handleStmtReset {data : List UInt8} (alive : L.stays → w.reply.isSome = true) :
    Moves L s (handleStmtReset w data s).2 := by
  refine moves_relay alive fun _ => ?_
  unfold quietCommand
  split <;> rfl

/-- The routing of a statement keeps to the current connection. -/
def statementHome (cfg : ProxyConfig) (s : Session) (parsed : ParsedQuery) : Bool :=
  (parsed.db = [] || parsed.db = s.db || routesHome cfg s parsed.db) &&
    match statementKind parsed.query with
    | .use dbName => routesHome cfg s dbName
    | .status => routesHome cfg s []
    | .begin | .commit | .rollback => true
    | .other => atPrimary cfg s

def inputHome (cfg : ProxyConfig) (s : Session) : Input → Bool
  | .initDB dbName => routesHome cfg s dbName
  | .nextStatement =>
    match s.pending with
    | query :: _ => statementHome cfg s (statementParsed query s.original)
    | [] => true
  | _ => true

/-! ### Steps and handshakes -/

theorem step_cases {a : Input × World} (taken : step cfg s a = some t) :
    (∃ query rest, s.pending = query :: rest ∧ a.1 = .nextStatement ∧
      t = nextStatement cfg a.2 query rest s) ∨
      (∃ text, t = startQuery text s) ∨ t = (dispatch cfg a.2 a.1 s).2 := by
  unfold step at taken
  split at taken
  · cases taken
  · split at taken
    · rename_i query rest waiting
      split_ifs at taken with next
      exact .inl ⟨query, rest, waiting, next, (Option.some.inj taken).symm⟩
    · split at taken
      · cases taken
      · exact .inr (.inl ⟨_, (Option.some.inj taken).symm⟩)
      · exact .inr (.inr (Option.some.inj taken).symm)

def greeted (cfg : ProxyConfig) (pool : Pool) (db : GoString) : Session where
  backend := some 0
  backendPool := cfg.default
  backendAddr := pool.getPrimary
  backendName := lit "primary"
  db := db
  dialled := 1
  events := [.dialed 0 pool.getPrimary []]

theorem handleConnection_cases {db : GoString} (connected : handleConnection cfg w db = some s) :
    ∃ pool, cfg.pools cfg.default = some pool ∧
      (db = [] ∧ s = greeted cfg pool db ∨
        db ≠ [] ∧ s = (exchange w (.query (useStatement db)) (greeted cfg pool db)).2) := by
  unfold handleConnection at connected
  split at connected
  · cases connected
  · rename_i pool found
    split_ifs at connected with reachable initial
    · exact ⟨pool, found, .inl ⟨initial, (Option.some.inj connected).symm⟩⟩
    · exact ⟨pool, found, .inr ⟨initial, (Option.some.inj connected).symm⟩⟩

end TQDBProxy.MariaDB
