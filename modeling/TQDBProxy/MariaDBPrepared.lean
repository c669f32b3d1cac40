import TQDBProxy.MariaDBReplies

/-! Prepared statements of a MariaDB client. The backend connections number their
statements independently; the proxy keeps one table for the client, by the ids that
the connections gave, and the table outlives the connections. -/

namespace TQDBProxy.MariaDB

open GuardedRuns TQDBProxy.Parser

def latest {α : Type} (entries : List (Nat × α)) (id : Nat) : Option α :=
  (entries.find? (·.1 == id)).map (·.2)

theorem latest_cons {α : Type} (i : Nat) (x : α) (entries : List (Nat × α)) (id : Nat) :
    latest ((i, x) :: entries) id = if i = id then some x else latest entries id := by
  unfold latest
  rw [List.find?_cons]
  by_cases same : i = id
  · simp [same]
  · rw [beq_eq_false_iff_ne.mpr same, if_neg same]

theorem latest_filter {α : Type} (i : Nat) (entries : List (Nat × α)) (id : Nat) :
    latest (entries.filter (·.1 != i)) id = if i = id then none else latest entries id := by
  induction entries with
  | nil => simp [latest]
  | cons e older ih =>
    obtain ⟨j, x⟩ := e
    rw [List.filter_cons, latest_cons]
    by_cases gone : j = i
    · subst gone
      simp only [bne_self_eq_false, Bool.false_eq_true, if_false, ih]
      split_ifs <;> rfl
    · rw [if_pos (by simpa using gone), latest_cons, ih]
      by_cases same : j = id
      · rw [if_pos same, if_pos same, if_neg (by omega)]
      · rw [if_neg same, if_neg same]

def serverStatement (s : Session) (conn id : Nat) : Option GoString :=
  (s.serverStatements.find? fun (c, i, _) => c == conn && i == id).map (·.2.2)

def preparedOk (response : List UInt8) : Bool := response.head? = some 0 && 9 ≤ response.length

def preparedID (response : List UInt8) : Nat := Binary.littleEndian ((response.drop 1).take 4)

/-- A session with the statements that its client was answered, and has not closed; the
log is that of the last step. -/
structure Known where
  session : Session
  answered : List (Nat × GoString) := []

def Known.learn (cfg : ProxyConfig) (k : Known) (a : Input × Outside) : List (Nat × GoString) :=
  match a.1 with
  | .stmtPrepare query =>
    if preparedOk a.2.response ∧ .prepared a.2.response ∈ replies cfg k.session.fresh a.1 a.2 then
      (preparedID a.2.response, query) :: k.answered
    else k.answered
  | .stmtClose data =>
    if 4 ≤ data.length then k.answered.filter (·.1 != stmtID data) else k.answered
  | _ => k.answered

def know (cfg : ProxyConfig) (k : Known) (a : Input × Outside) : Option Known :=
  (step cfg k.session.fresh (a.1, a.2.toWorld)).map fun t => ⟨t, k.learn cfg a⟩

def hasStatement (s : Session) (data : List UInt8) : Bool :=
  s.backend.any fun conn => (serverStatement s conn (stmtID data)).isSome

def Reply.isError : Reply → Bool
  | .error _ => true
  | .forwarded response _ => firstByte response = some 0xFF
  | _ => false

/-- An execution runs what the client was last answered under the id, or is refused. -/
structure ExecutesAnswered (cfg : ProxyConfig) (k : Known) (data : List UInt8) (o : Outside)
    (t : Session) : Prop where
  forwarded : ∀ b conn text, .sent b conn (.stmtExecute data) ∈ t.events →
    serverText k.session conn (.stmtExecute data) = some text →
      latest k.answered (stmtID data) = some text
  batched : ∀ db key query params batchMs, .enqueued db key query params batchMs ∈ t.events →
    ∃ text, latest k.answered (stmtID data) = some text ∧ query = (parse text).query
  refused : hasStatement k.session data = false ∨ latest k.answered (stmtID data) = none →
    o.client = true → (replies cfg k.session.fresh (.stmtExecute data) o).any Reply.isError = true

/-- A connection answers the execution of a statement it does not have with an error. -/
def honest (s : Session) (data : List UInt8) (o : Outside) : Bool :=
  hasStatement s data || !o.accepted

def answersAlone (s : Session) (data : List UInt8) (parsed : ParsedQuery) (o : Outside) : Bool :=
  if !s.inTransaction && parsed.isWritable && parsed.isBatchable then
    match decodeStmtParams data parsed.query with
    | .panics => true
    | .ok _ => !(Utf8.valid parsed.file && o.enqueue.error.any retried)
    | .error _ => parsed.isCacheable && o.get.isSome
  else parsed.isCacheable && o.get.isSome

def passesOn (o : Outside) : Bool :=
  !preparedOk o.response ||
    o.client && (o.more || (Binary.littleEndian ((o.response.drop 5).take 2) == 0 &&
      Binary.littleEndian ((o.response.drop 7).take 2) == 0))

/-- Prepared statements reach the client, and what is executed without the connection is
known to it. -/
def keepsHandles (s : Session) (a : Input × Outside) : Bool :=
  match a.1 with
  | .stmtPrepare _ => passesOn a.2
  | .stmtExecute data =>
    hasStatement s data || (preparedFor s data).all fun parsed =>
      s.backend.isSome && !answersAlone s data parsed a.2
  | _ => true

/-- The proxy's table and the current connection have what the client was answered. -/
structure Remembered (answered : List (Nat × GoString)) (s : Session) : Prop where
  table : ∀ id parsed, latest s.preparedStatements id = some parsed →
    ∃ text, latest answered id = some text ∧ parsed = parse text
  server : ∀ conn id text known, s.backend = some conn → serverStatement s conn id = some text →
    latest answered id = some known → known = text
  older : ∀ e ∈ s.serverStatements, e.1 < s.dialled
  current : ∀ conn, s.backend = some conn → conn < s.dialled

variable {cfg : ProxyConfig} {w : World} {s t u : Session} {input : Input} {c : Command}
  {parsed : ParsedQuery} {answered : List (Nat × GoString)} {o : Outside} {data : List UInt8}

theorem remembered_core (held : Remembered answered s) (same : t.core = s.core) :
    Remembered answered t := by
  have fields := same_core same
  constructor
  · rw [fields.prepared]
    exact held.table
  · unfold serverStatement
    rw [fields.backend, fields.server]
    exact held.server
  · rw [fields.server, fields.dialled]
    exact held.older
  · rw [fields.backend, fields.dialled]
    exact held.current

theorem remembered_resetBackend (held : Remembered answered s) :
    Remembered answered s.resetBackend := by
  have core := core_resetBackend (s := s)
  simp only [Session.core, Prod.mk.injEq] at core
  obtain ⟨backend, -, -, -, dialled, prepared, server, -, -⟩ := core
  constructor
  · rw [prepared]
    exact held.table
  · intro conn id text known current
    rw [backend] at current
    cases current
  · rw [server, dialled]
    exact held.older
  · intro conn current
    rw [backend] at current
    cases current

theorem stable_remembered : Stable (Remembered answered) where
  congr := fun _ _ => remembered_core
  mislabel := fun _ held => ⟨held.table, held.server, held.older, held.current⟩
  lost := fun _ _ => remembered_resetBackend

theorem remembered_crash (held : Remembered answered s) : Remembered answered s.crash :=
  ⟨held.table, held.server, held.older, held.current⟩

theorem remembered_exchange (held : Remembered answered s) :
    Remembered answered (exchange w c s).2 := by
  have noted : ∀ conn, Remembered answered (s.note (.sent s.begun conn c)) := fun conn =>
    ⟨held.table, held.server, held.older, held.current⟩
  exact stable_remembered.exchange (fun _ => remembered_crash held)
    (fun conn _ _ => remembered_resetBackend (noted conn)) fun conn _ _ => noted conn

theorem Connects.remembered {addr name pool : GoString} (connects : Connects w addr name pool s t)
    (held : Remembered answered s) : Remembered answered t := by
  cases connects with
  | current _ _ core => exact remembered_core held core
  | dialled _ core =>
    have fields := switched core
    constructor
    · rw [fields.prepared]
      exact held.table
    · intro conn id text known current found
      rw [fields.backend] at current
      cases current
      unfold serverStatement at found
      rw [fields.server] at found
      obtain ⟨e, mem, -⟩ := Option.map_eq_some_iff.mp found
      have new := List.find?_some mem
      have old := held.older e (List.mem_of_find?_eq_some mem)
      simp only [Bool.and_eq_true, beq_iff_eq] at new
      omega
    · intro e mem
      rw [fields.server] at mem
      rw [fields.dialled]
      exact Nat.lt_succ_of_lt (held.older e mem)
    · intro conn current
      rw [fields.backend] at current
      cases current
      rw [fields.dialled]
      exact Nat.lt_succ_self _

theorem Routes.remembered {db : GoString} (routes : Routes cfg w db s t)
    (held : Remembered answered s) :
    Remembered answered t := by
  cases routes with
  | here _ _ _ _ core => exact remembered_core held core
  | there _ _ connects => exact connects.remembered held

theorem remembered_database {db : GoString} (held : Remembered answered s) :
    Remembered answered { s with db := db } :=
  ⟨held.table, held.server, held.older, held.current⟩

theorem Qualifies.remembered (qualifies : Qualifies cfg w parsed s t)
    (held : Remembered answered s) :
    Remembered answered t := by
  cases qualifies with
  | plain _ core => exact remembered_core held core
  | shard _ _ _ routes core =>
    exact remembered_core (remembered_database (routes.remembered held)) core

theorem StatementSends.remembered (sends : StatementSends cfg w parsed s c u)
    (held : Remembered answered s) : Remembered answered u := by
  cases sends with
  | use _ routes core => exact remembered_core (remembered_database (routes.remembered held)) core
  | control _ => exact held
  | status _ routes => exact routes.remembered held
  | execute _ _ _ connects => exact connects.remembered held

theorem Sends.remembered (sends : Sends cfg w s input c u)
    (unclosed : ∀ data, input ≠ .stmtClose data) (held : Remembered answered s) :
      Remembered answered u := by
  cases sends with
  | initDB routes core => exact remembered_core (remembered_database (routes.remembered held)) core
  | statement _ qualifies sends => exact sends.remembered (qualifies.remembered held)
  | execute _ core => exact remembered_core held core
  | @close data => exact absurd rfl (unclosed data)
  | prepare | reset => exact held

theorem remembered_other {a : Input × World} (held : Remembered answered s)
    (unprepared : ∀ query, a.1 ≠ .stmtPrepare query) (unclosed : ∀ data, a.1 ≠ .stmtClose data)
    (taken : step cfg s a = some t) : Remembered answered t := by
  obtain ⟨input, w⟩ := a
  refine stable_remembered.step held ?_ ?_ ?_ ?_ taken
  · exact fun _ _ t _ _ qualifies => qualifies.remembered held
  · exact fun c u sends => remembered_exchange (sends.remembered unclosed held)
  · exact fun query _ _ prepares => absurd prepares (unprepared query)
  · intro t crashes
    apply remembered_crash
    cases crashes with
    | noPool _ qualifies _ => exact qualifies.remembered held
    | @shortAnswer query => exact absurd rfl (unprepared query)
    | params _ => exact held

theorem remembered_close {k : Known} (held : Remembered k.answered s) :
    Remembered (k.learn cfg (.stmtClose data, o)) (handleStmtClose w data s).2 := by
  refine handleStmtClose_rule (remembered_exchange ?_)
  unfold Known.learn forgetStatement
  dsimp only
  split
  · constructor
    · intro id parsed found
      rw [latest_filter] at found ⊢
      split_ifs at found ⊢
      exact held.table id parsed found
    · intro conn id text known current found answered
      rw [latest_filter] at answered
      split_ifs at answered
      exact held.server conn id text known current found answered
    · exact held.older
    · exact held.current
  · exact held

theorem remembered_rememberStatement {query : GoString} {response : List UInt8}
    (held : Remembered answered s) (some : s.backend.isSome = true) :
    Remembered ((preparedID response, query) :: answered) (rememberStatement query response s) := by
  obtain ⟨here, current⟩ := Option.isSome_iff_exists.mp some
  unfold rememberStatement
  dsimp only
  rw [current]
  constructor
  · intro id parsed found
    rw [latest_cons] at found ⊢
    unfold preparedID
    split_ifs at found ⊢
    · cases found
      exact ⟨query, rfl, rfl⟩
    · exact held.table id parsed found
  · intro conn id text known same found answered
    obtain rfl : here = conn := Option.some.inj same
    rw [latest_cons] at answered
    unfold preparedID at answered
    simp only [serverStatement, Option.getD_some, List.find?_cons, beq_self_eq_true,
      Bool.true_and] at found
    split_ifs at answered with head
    · rw [beq_iff_eq.mpr head] at found
      cases answered
      cases found
      rfl
    · rw [beq_eq_false_iff_ne.mpr head] at found
      exact held.server here id text known current found answered
  · intro e mem
    rcases List.mem_cons.mp mem with rfl | old
    · exact held.current here current
    · exact held.older e old
  · intro conn same
    exact held.current conn (current.trans same)

theorem prepared_not_received {f : Failure} {response : List UInt8}
    {success : Session → List Reply} :
    .prepared response ∉ received o false s success (some f, t) := by
  unfold received
  cases f <;> cases o.client <;> cases t.panicked <;> cases o.asked <;> simp

theorem handlePrepare_whole {query : GoString} {response : List UInt8}
    (made : exchange w (.stmtPrepare query) s = (some response, t))
    (good : preparedOk response = true)
    (whole : w.more = true ∨ Binary.littleEndian ((response.drop 5).take 2) = 0 ∧
      Binary.littleEndian ((response.drop 7).take 2) = 0) :
    handlePrepare w query s = writeClient w (rememberStatement query response t) := by
  simp only [preparedOk, Bool.and_eq_true, decide_eq_true_eq] at good
  unfold handlePrepare
  rw [made]
  dsimp only
  rw [if_pos good.1, if_neg (by omega), if_neg]
  · rfl
  · rcases whole with more | ⟨columns, params⟩ <;> simp [*]

theorem handlePrepare_refused {query : GoString} {response : List UInt8}
    (made : exchange w (.stmtPrepare query) s = (some response, t))
    (bad : preparedOk response = false) :
    (handlePrepare w query s).2 = t ∨ (handlePrepare w query s).2 = t.crash := by
  unfold handlePrepare
  rw [made]
  dsimp only
  split
  · rename_i ok
    have short : response.length < 9 := by simpa [preparedOk, ok] using bad
    rw [if_pos short]
    exact .inr rfl
  · exact .inl rfl

theorem remembered_prepare {k : Known} {query : GoString}
    (held : Remembered k.answered k.session.fresh) (idle : k.session.pending = [])
    (alive : k.session.panicked = false) (passes : passesOn o = true) :
    Remembered (k.learn cfg (.stmtPrepare query, o))
      (handlePrepare o.toWorld query k.session.fresh).2 := by
  have told : replies cfg k.session.fresh (.stmtPrepare query) o =
      received o false k.session.fresh (fun _ => [.prepared o.response])
        (handlePrepare o.toWorld query k.session.fresh) := by
    unfold replies
    rw [show k.session.fresh.pending = [] from idle]
    rfl
  have sent : Remembered k.answered (exchange o.toWorld (.stmtPrepare query) k.session.fresh).2 :=
    remembered_exchange held
  unfold Known.learn
  dsimp only
  rw [told]
  rcases made : exchange o.toWorld (.stmtPrepare query) k.session.fresh with ⟨reply, t⟩
  rw [made] at sent
  cases reply with
  | none =>
    have lost : handlePrepare o.toWorld query k.session.fresh = (some .backend, t) := by
      rw [handlePrepare, made]
    rw [lost, if_neg fun both => prepared_not_received both.2]
    exact sent
  | some response =>
    have same : o.response = response := by
      rw [Outside.response, exchange_reply made]
      rfl
    rw [same]
    cases good : preparedOk response with
    | false =>
      rw [if_neg (by simp)]
      rcases handlePrepare_refused made good with same | crashed
      · rw [same]
        exact sent
      · rw [crashed]
        exact remembered_crash sent
    | true =>
      simp only [passesOn, same, good, Bool.not_true, Bool.false_or, Bool.and_eq_true,
        Bool.or_eq_true,
        beq_iff_eq] at passes
      obtain ⟨listening, whole⟩ := passes
      have running : t.panicked = false := (exchange_panicked made).trans alive
      have some : t.backend.isSome = true := by
        rw [(exchange_alive made).1]
        exact (exchange_alive made).2
      rw [handlePrepare_whole made good whole,
        if_pos ⟨rfl, by simp [received, writeClient, listening, rememberStatement, running]⟩]
      exact remembered_rememberStatement sent some

theorem remembered_know {k k' : Known} {a : Input × Outside}
    (held : Remembered k.answered k.session) (guard : keepsHandles k.session a = true)
    (taken : know cfg k a = some k') :
    Remembered k'.answered k'.session := by
  obtain ⟨input, o⟩ := a
  obtain ⟨t, stepped, rfl⟩ := Option.map_eq_some_iff.mp taken
  have fresh : Remembered k.answered k.session.fresh :=
    ⟨held.table, held.server, held.older, held.current⟩
  have alive : k.session.fresh.panicked = false := step_alive stepped
  cases input with
  | stmtPrepare query =>
    simp only [step, alive, Bool.false_eq_true, if_false] at stepped
    split at stepped
    · cases stepped
    · rename_i idle
      cases stepped
      exact remembered_prepare fresh idle alive guard
  | stmtClose data =>
    simp only [step, alive, Bool.false_eq_true, if_false] at stepped
    split at stepped
    · cases stepped
    · cases stepped
      have closed : Remembered (k.learn cfg (.stmtClose data, o))
          (handleStmtClose o.toWorld data k.session.fresh).2 := remembered_close fresh
      exact closed
  | _ => exact remembered_other fresh (by simp) (by simp) stepped

theorem remembered_handleConnection {db : GoString}
    (connected : handleConnection cfg w db = some s) :
    Remembered [] s := by
  obtain ⟨pool, -, start⟩ := handleConnection_cases connected
  have initial : Remembered [] (greeted cfg pool db) := by
    constructor
    · intro id parsed found
      cases found
    · intro conn id text known _ found
      cases found
    · intro e mem
      cases mem
    · intro conn current
      cases current
      exact Nat.one_pos
  rcases start with ⟨-, rfl⟩ | ⟨-, rfl⟩
  · exact initial
  · exact remembered_exchange initial

theorem exchange_running (current : s.backend.isSome = true) :
    (exchange w c s).2.panicked = s.panicked := by
  obtain ⟨conn, current⟩ := Option.isSome_iff_exists.mp current
  simp only [exchange, current]
  split
  · unfold Session.resetBackend Session.closeBackend
    split <;> rfl
  · rfl

theorem execute_sent {b : Option Nat} {conn : Nat} (alive : s.panicked = false)
    (quiet : s.events = []) (sent : .sent b conn c ∈ (handleExecute w data s).2.events) :
    s.backend = some conn ∧ (preparedFor s data).isSome = true := by
  let P : Session → Prop := fun u => ∀ b conn c, .sent b conn c ∈ u.events →
    s.backend = some conn ∧ (preparedFor s data).isSome = true
  have lost : ∀ u, P u → P u.resetBackend := by
    intro u held b conn c mem
    unfold Session.resetBackend Session.closeBackend at mem
    split at mem
    · exact held b conn c (by simpa [Session.note] using mem)
    · exact held b conn c mem
  have stable : Stable P := by
    refine ⟨fun u v held same b conn c mem => held b conn c ?_, fun _ held => held,
      fun u _ => lost u⟩
    rw [← sent_filter, ← (same_core same).events, sent_filter]
    exact mem
  have start : P s := by
    intro b conn c mem
    rw [quiet] at mem
    cases mem
  refine stable.handleExecute alive start (fun _ => start) ?_ b conn c sent
  intro known u same
  have fields := same_core same
  have here : P u := stable.congr s u start same
  have noted : ∀ conn, u.backend = some conn →
      P (u.note (.sent u.begun conn (.stmtExecute data))) := by
    intro conn current b conn' c mem
    rcases List.mem_cons.mp mem with new | old
    · cases new
      exact ⟨fields.backend.symm.trans current, known⟩
    · exact here b conn' c old
  exact stable.exchange (fun _ => here) (fun conn current _ => lost _ (noted conn current))
    fun conn current _ => noted conn current

theorem execute_enqueued {db key query : GoString} {params : List Value} {batchMs : Nat}
    (quiet : s.events = [])
    (enqueued : .enqueued db key query params batchMs ∈ (handleExecute w data s).2.events) :
    ∃ parsed, preparedFor s data = some parsed ∧ query = parsed.query := by
  let L : Limits :=
    { stays := False
      silent := False
      emits := fun e => ∀ db key query params batchMs, e = .enqueued db key query params batchMs →
        ∃ parsed, preparedFor s data = some parsed ∧ query = parsed.query
      plain := by
        rintro _ plain _ _ _ _ _ rfl
        cases plain }
  have moves : Moves L s (handleExecute w data s).2 := by
    refine moves_handleExecute False.elim False.elim False.elim ?_ ?_ ?_ ?_
    · intro _ _ _ _ _ _ _ same
      cases same
    · intro _ _ parsed params found _ _ _ _ _ _ same
      cases same
      exact ⟨parsed, found, rfl⟩
    · intro _ _ _ _ _ _ _ _ same
      cases same
    · exact fun _ _ =>
        ⟨fun _ _ _ _ _ same => (by cases same), fun _ _ _ _ _ same => (by cases same)⟩
  rcases moves.emitted _ enqueued with old | new
  · rw [quiet] at old
    cases old
  · exact new db key query params batchMs rfl

theorem received_isError {more : Bool} {success : Session → List Reply} {h : Handled}
    (listening : o.client = true) (alive : h.2.panicked = false)
    (told : h.1 = none → (success h.2).any Reply.isError = true) :
    (received o more s success h).any Reply.isError = true := by
  obtain ⟨failure, t⟩ := h
  have running : t.panicked = false := alive
  cases failure with
  | none => simpa [received, listening, running] using .inr (List.any_eq_true.mp (told rfl))
  | some f =>
    unfold received
    cases f <;> simp [listening, running, Reply.isError]

def Asks (w : World) (h : Handled) : Prop :=
  h.2.panicked = false ∧ (h.1 = none → w.reply.isSome = true)

theorem asks_executePrepared (current : s.backend.isSome = true) (alive : s.panicked = false)
    (uncached : (parsed.isCacheable && w.get.isSome) = false)
    (denied : ∀ response, w.reply = some response → firstByte response = some 0xFF) :
    Asks w (executePrepared w parsed data s) := by
  have running : (exchange w (.stmtExecute data) (noteWrite parsed s.openSession s)).2.panicked =
      false := by
    rw [exchange_running (by rw [noteWrite_backend, current]),
      (same_core (core_noteWrite parsed s.openSession)).panicked, alive]
  unfold executePrepared servePrepared
  rw [uncached]
  simp only [Bool.false_eq_true, if_false]
  rcases made : exchange w (.stmtExecute data) (noteWrite parsed s.openSession s) with ⟨reply, t⟩
  rw [made] at running
  cases reply with
  | none => exact ⟨running, fun impossible => by cases impossible⟩
  | some response =>
    have reply := exchange_reply made
    dsimp only
    rw [if_neg (by rw [denied response reply]; decide)]
    refine ⟨?_, fun _ => by rw [reply]; rfl⟩
    rw [writeClient_session]
    split
    · exact (same_core (core_answered.trans core_storeResult)).panicked.trans running
    · exact running

theorem asks_handleBatchedPreparedExecute {params : List Value} (current : s.backend.isSome = true)
    (alive : s.panicked = false) (labelled : Utf8.valid parsed.file = true)
    (refused : w.enqueue.error.any retried = true) :
    Asks w (handleBatchedPreparedExecute w data parsed params s) := by
  obtain ⟨e, error, again⟩ : ∃ e, w.enqueue.error = some e ∧ retried e = true := by
    simpa [Option.any_eq_true] using refused
  unfold handleBatchedPreparedExecute
  simp only [labelled, error, again, Bool.not_true, Bool.false_eq_true, if_false, if_true]
  have running : ∀ u : Session, u.backend = s.backend → u.panicked = s.panicked →
      (exchange w (.stmtExecute data) u).2.panicked = false := by
    intro u backend panicked
    rw [exchange_running (by rw [backend, current]), panicked, alive]
  have ran := running ((s.note (.write s.openSession .manager)).note
    (.enqueued s.db parsed.getBatchKey parsed.query params parsed.batchMs)) rfl rfl
  rcases made : exchange w (.stmtExecute data) ((s.note (.write s.openSession .manager)).note
    (.enqueued s.db parsed.getBatchKey parsed.query params parsed.batchMs)) with ⟨reply, t⟩
  rw [made] at ran
  cases reply with
  | none => exact ⟨ran, fun impossible => by cases impossible⟩
  | some response => exact ⟨ran, fun _ => by rw [exchange_reply made]; rfl⟩

theorem asks_handleExecute (current : s.backend.isSome = true) (alive : s.panicked = false)
    (found : preparedFor s data = some parsed) (asks : answersAlone s data parsed o = false)
    (denied : ∀ response, o.reply = some response → firstByte response = some 0xFF)
    (long : 4 ≤ data.length) :
    Asks o.toWorld (handleExecute o.toWorld data s) ∧
      ∀ t, executeReply o data parsed s t = [.forwarded o.response false] := by
  obtain ⟨⟨id, parsed'⟩, entry, same⟩ := Option.map_eq_some_iff.mp found
  obtain rfl : parsed' = parsed := same
  have direct : (parsed'.isCacheable && o.get.isSome) = false →
      Asks o.toWorld (executePrepared o.toWorld parsed' data s) ∧
        ∀ t, batchesExecute s data parsed' = false →
          executeReply o data parsed' s t = [.forwarded o.response false] := by
    intro uncached
    refine ⟨asks_executePrepared current alive uncached denied, fun t apart => ?_⟩
    have refused : queryReply o false = [.forwarded o.response false] :=
      queryReply_plain fun response reply => by simp [denied response reply]
    rw [executeReply, apart, if_neg (by decide)]
    cases cached : o.get with
    | none => exact refused
    | some entry =>
      have plain : parsed'.isCacheable = false := by simpa [cached] using uncached
      simp only [plain, Bool.false_eq_true, if_false]
      exact refused
  unfold handleExecute
  rw [if_neg (by omega), entry]
  dsimp only
  unfold answersAlone at asks
  cases free : !s.inTransaction && parsed'.isWritable && parsed'.isBatchable with
  | false =>
    rw [free] at asks
    rw [if_neg (by decide)]
    obtain ⟨asked, told⟩ := direct asks
    exact ⟨asked, fun t => told t (by simp [batchesExecute, free])⟩
  | true =>
    rw [free] at asks
    rw [if_pos rfl]
    cases decoded : decodeStmtParams data parsed'.query with
    | panics =>
      rw [decoded] at asks
      cases asks
    | error message =>
      rw [decoded] at asks
      obtain ⟨asked, told⟩ := direct asks
      exact ⟨asked, fun t => told t (by simp [batchesExecute, decoded])⟩
    | ok params =>
      simp only [decoded, if_true, Bool.not_eq_false', Bool.and_eq_true] at asks
      obtain ⟨labelled, refused⟩ := asks
      refine ⟨asks_handleBatchedPreparedExecute current alive labelled refused, fun t => ?_⟩
      obtain ⟨e, error, again⟩ : ∃ e, o.enqueue.error = some e ∧ retried e = true := by
        simpa [Option.any_eq_true] using refused
      simp [executeReply, batchesExecute, free, decoded, batchReply, error, again]

theorem execute_refused (held : Remembered answered s) (alive : s.panicked = false)
    (idle : s.pending = []) (guard : keepsHandles s (.stmtExecute data, o) = true)
    (sincere : honest s data o = true) (missing : hasStatement s data = false ∨
      latest answered (stmtID data) = none)
    (listening : o.client = true) :
    (replies cfg s (.stmtExecute data) o).any Reply.isError = true := by
  unfold replies
  rw [idle]
  dsimp only [dispatch]
  by_cases long : 4 ≤ data.length
  · cases found : preparedFor s data with
    | none =>
      have unknown :
          handleExecute o.toWorld data s = (some (.unknownStatement (stmtID data)), s) := by
        unfold handleExecute
        rw [if_neg (by omega), Option.map_eq_none_iff.mp found]
      rw [unknown]
      exact received_isError listening alive fun impossible => by cases impossible
    | some parsed =>
      obtain ⟨text, known, -⟩ := held.table (stmtID data) parsed found
      have absent : hasStatement s data = false := by
        rcases missing with absent | closed
        · exact absent
        · rw [known] at closed
          cases closed
      simp only [keepsHandles, absent, found, Option.all_some, Bool.false_or, Bool.and_eq_true,
        Bool.not_eq_true'] at guard
      have denied : ∀ response, o.reply = some response → firstByte response = some 0xFF := by
        intro response reply
        simpa [honest, absent, World.accepted, reply] using sincere
      obtain ⟨⟨running, answered⟩, told⟩ :=
        asks_handleExecute guard.1 alive found guard.2 denied long
      refine received_isError listening running fun ended => ?_
      obtain ⟨response, reply⟩ := Option.isSome_iff_exists.mp (answered ended)
      have error : firstByte o.response = some 0xFF := by
        rw [Outside.response, reply]
        exact denied response reply
      simp [dispatchReply, found, told, Reply.isError, error]
  · have malformed : handleExecute o.toWorld data s = (some .malformedExecute, s) := by
      unfold handleExecute
      rw [if_pos (by omega)]
    rw [malformed]
    exact received_isError listening alive fun impossible => by cases impossible

/-- An execution runs the statement that the client was last answered under the id, or is
refused, if every prepared statement reaches the client. -/
theorem executes_last_answered {cfg : ProxyConfig} {w : World} {db : GoString} {init t : Session}
    {k : Known} {data : List UInt8} {o : Outside}
    (connected : handleConnection cfg w db = some init)
    (run : Reach (know cfg) (fun k a => keepsHandles k.session a = true) ⟨init, []⟩ k)
    (guard : keepsHandles k.session (.stmtExecute data, o) = true)
    (sincere : honest k.session data o = true)
    (taken : step cfg k.session.fresh (.stmtExecute data, o.toWorld) = some t) :
    ExecutesAnswered cfg k data o t := by
  have held : Remembered k.answered k.session :=
    Reach.invariant (P := fun k => Remembered k.answered k.session)
      (remembered_handleConnection connected) (fun _ _ _ => remembered_know) run
  have alive : k.session.fresh.panicked = false := step_alive taken
  have idle : k.session.fresh.pending = [] := by
    unfold step at taken
    rw [alive] at taken
    cases waiting : k.session.fresh.pending with
    | nil => rfl
    | cons query rest =>
      rw [waiting] at taken
      cases taken
  have executed : t = (handleExecute o.toWorld data k.session.fresh).2 := by
    simp only [step, alive, idle, Bool.false_eq_true, if_false, Option.some.injEq] at taken
    exact taken.symm
  subst executed
  constructor
  · intro b conn text sent onServer
    obtain ⟨current, known⟩ := execute_sent alive rfl sent
    obtain ⟨parsed, found⟩ := Option.isSome_iff_exists.mp known
    obtain ⟨answer, last, -⟩ := held.table (stmtID data) parsed found
    rw [last, held.server conn (stmtID data) text answer current onServer last]
  · intro db key query params batchMs enqueued
    obtain ⟨parsed, found, rfl⟩ := execute_enqueued rfl enqueued
    obtain ⟨answer, last, rfl⟩ := held.table (stmtID data) parsed found
    exact ⟨answer, last, rfl⟩
  · intro missing listening
    have fresh : Remembered k.answered k.session.fresh :=
      ⟨held.table, held.server, held.older, held.current⟩
    exact execute_refused fresh alive idle guard sincere missing listening

def firstPrepared (params : UInt8) : List UInt8 := [0, 1, 0, 0, 0, 0, 0, params, 0, 0, 0, 0]

def preparing (text : String) (params : UInt8) (more : Bool) : List (Input × Outside) :=
  [(.stmtPrepare (lit text), { reply := some (firstPrepared params), more := more })]

/-- A cacheable SELECT moves the client to a connection to the replica. -/
def moving : List (Input × Outside) :=
  [(.query (lit "/* ttl:60 */ SELECT a FROM t"), {}), (.nextStatement, {})]

/-- The second connection numbers its statements from one again; the id stands for the
statement that was prepared there. -/
theorem executes_last_answered_again :
    ∃ k t, step replicated k.session.fresh (.stmtExecute [1, 0, 0, 0], {}) = some t ∧
      .sent none 1 (.stmtExecute [1, 0, 0, 0]) ∈ t.events ∧
      latest k.answered 1 = some (lit "SELECT 2") ∧
      ExecutesAnswered replicated k [1, 0, 0, 0] {} t := by
  obtain ⟨k, reach, seen⟩ := checked_of_test (know replicated) (fun k a => keepsHandles k.session a)
    ⟨client, []⟩ (preparing "SELECT 1" 0 true ++ moving ++ preparing "SELECT 2" 0 true)
    (fun k => keepsHandles k.session (.stmtExecute [1, 0, 0, 0], {}) &&
      honest k.session [1, 0, 0, 0] {} && latest k.answered 1 == some (lit "SELECT 2") &&
      (step replicated k.session.fresh (.stmtExecute [1, 0, 0, 0], {})).any fun t =>
        .sent none 1 (.stmtExecute [1, 0, 0, 0]) ∈ t.events) (by decide)
  simp only [Bool.and_eq_true, Option.any_eq_true, decide_eq_true_eq, beq_iff_eq] at seen
  obtain ⟨⟨⟨guard, sincere⟩, last⟩, t, taken, sent⟩ := seen
  exact ⟨k, t, taken, sent, last,
    executes_last_answered client_connected reach guard sincere taken⟩

def executeOne : List UInt8 := [1, 0, 0, 0, 0, 1, 0, 0, 0, 0, 1, 1, 0, 7]

/-- The connection is lost while it describes a second INSERT. The client is told of an error
and executes its first INSERT; the manager is handed the second one. -/
theorem executes_unanswered :
    handleConnection replicated {} [] = some client ∧
      ∃ k t, Reach (know replicated) free ⟨client, []⟩ k ∧
        honest k.session executeOne { reply := none } = true ∧
        step replicated k.session.fresh (.stmtExecute executeOne, { reply := none }) = some t ∧
        latest k.answered 1 = some (lit "/* batch:10 */ INSERT INTO a VALUES (?)") ∧
        ¬ ExecutesAnswered replicated k executeOne { reply := none } t := by
  refine ⟨client_connected, ?_⟩
  obtain ⟨k, reach, seen⟩ := free_of_test (know replicated) ⟨client, []⟩
    (preparing "/* batch:10 */ INSERT INTO a VALUES (?)" 1 true ++ moving ++
      preparing "/* batch:10 */ INSERT INTO b VALUES (?)" 1 false)
    (fun k => honest k.session executeOne { reply := none } &&
      latest k.answered 1 == some (lit "/* batch:10 */ INSERT INTO a VALUES (?)") &&
      (step replicated k.session.fresh (.stmtExecute executeOne, { reply := none })).any fun t =>
        t.events.any fun
          | .enqueued _ _ query _ _ => query == lit "INSERT INTO b VALUES (?)"
          | _ => false) (by decide)
  simp only [Bool.and_eq_true, Option.any_eq_true, beq_iff_eq, List.any_eq_true] at seen
  obtain ⟨⟨sincere, last⟩, t, taken, e, mem, wrong⟩ := seen
  refine ⟨k, t, reach, sincere, taken, last, fun right => ?_⟩
  cases e with
  | enqueued db key query params batchMs =>
    obtain ⟨text, known, eq⟩ := right.batched db key query params batchMs mem
    obtain rfl : lit "/* batch:10 */ INSERT INTO a VALUES (?)" = text :=
      Option.some.inj (last.symm.trans known)
    rw [beq_iff_eq.mp wrong] at eq
    exact absurd eq (by decide)
  | _ => cases wrong

end TQDBProxy.MariaDB
