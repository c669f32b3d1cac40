import TQDBProxy.GuardedRuns
import TQDBProxy.MariaDBSteps
import TQDBProxy.PostgresSteps

/-! A write with a batch hint is handed to the write-batch manager when the
transaction flag of the connection is low. The flag is set from a few spellings
of transaction control, so it covers the session's transaction only for clients
that keep to those spellings; each proxy knows its own. -/

namespace TQDBProxy

open GuardedRuns TQDBProxy.Parser SqlTokens

/-- A write that arrived in an open transaction was executed on its session. -/
def WritesKept (events : List Event) : Prop :=
  ∀ conn route, .write (some conn) route ∈ events → route = .backend conn

theorem SqlTokens.openAfter_of_end {d : Dialect} {opened : Bool} {text : GoString} {executed : Nat}
    {statement : List GoString} (only : statements d text = [statement])
    (starts : startsTransaction d statement = false) (ends : endsTransaction statement = true)
    (reached : 1 ≤ executed) : openAfter d opened text executed = false := by
  rw [openAfter, only, List.take_of_length_le (by simpa using reached)]
  simp [afterStatement, starts, ends]

namespace MariaDB

variable {cfg : ProxyConfig} {w : World} {s t : Session} {parsed : ParsedQuery}

def Covered (s : Session) : Prop := s.sessionOpen = true → s.inTransaction = true

def quieted : Limits where
  stays := False
  silent := True
  emits := fun _ => True
  plain := fun _ _ => trivial

theorem Covered.moves (covered : Covered s) (moves : Moves quieted s t) : Covered t := by
  intro opened
  rw [moves.flag]
  exact covered (moves.opened trivial opened)

theorem covered_lost {c : Command} (covered : Covered s) (made : exchange w c s = (none, t)) :
    Covered t := by
  unfold exchange at made
  split at made
  · cases made
    exact covered
  · dsimp only at made
    split at made
    · cases made
      intro opened
      cases opened
    · cases made

theorem covered_handleBegin (covered : Covered s) : Covered (handleBegin w s).2 := by
  unfold handleBegin
  split
  · rename_i made
    exact covered_lost covered made
  · exact fun _ => rfl

theorem covered_finishTransaction {text : String} (statement : List GoString) (covered : Covered s)
    (only : statements .mysql (lit text) = [statement])
    (starts : startsTransaction .mysql statement = false) (ends : endsTransaction statement = true)
    (reached : 1 ≤ w.executed) : Covered (finishTransaction text w s).2 := by
  unfold finishTransaction
  split
  · rename_i made
    exact covered_lost covered made
  · rename_i response t made
    have ended : t.sessionOpen = false := by
      unfold exchange at made
      split at made
      · cases made
      · dsimp only at made
        split at made
        · cases made
        · cases made
          exact openAfter_of_end only starts ends reached
    intro opened
    simp [writeClient, ended] at opened

/-- A statement starts a transaction only where the proxy raises its flag, and
lowers the flag only where the backend carries it out. -/
def statementTracked (cfg : ProxyConfig) (w : World) (s : Session) (parsed : ParsedQuery) : Bool :=
  match statementKind parsed.query with
  | .use dbName => noStart .mysql (useStatement dbName)
  | .begin => true
  | .commit | .rollback => 1 ≤ w.executed
  | .status => noStart .mysql (statusText cfg s)
  | .other => noStart .mysql parsed.query

def inputTracked (cfg : ProxyConfig) (s : Session) (a : Input × World) : Bool :=
  match a.1 with
  | .initDB dbName => noStart .mysql (useStatement dbName)
  | .nextStatement =>
    match s.pending with
    | query :: _ => statementTracked cfg a.2 s (statementParsed query s.original)
    | [] => true
  | .stmtExecute data => quietCommand s (.stmtExecute data)
  | _ => true

/-- A step is tracked, and a batched write in an open transaction stays on the connection. -/
def tracked (cfg : ProxyConfig) (s : Session) (a : Input × World) : Bool :=
  inputTracked cfg s a && (!(s.sessionOpen && batchableInput s a.1) || inputHome cfg s a.1)

theorem covered_handleKind {arrived : Option Nat} (covered : Covered s)
    (guard : statementTracked cfg w s parsed = true) :
    Covered (handleKind cfg w parsed arrived s).2 := by
  unfold statementTracked at guard
  unfold handleKind
  split <;> rename_i kind <;> simp only [kind] at guard
  · exact covered.moves (moves_handleUse False.elim False.elim fun _ => guard)
  · exact covered_handleBegin covered
  · exact covered_finishTransaction [lit "COMMIT"] covered (by decide) (by decide)
      (by decide) (by simpa using guard)
  · exact covered_finishTransaction [lit "ROLLBACK"] covered (by decide) (by decide)
      (by decide) (by simpa using guard)
  · exact covered.moves (moves_handleShowTQDBStatus False.elim False.elim fun _ => guard)
  · exact covered.moves (moves_handleOther False.elim False.elim False.elim (fun _ => guard)
      (fun _ _ => trivial) (fun _ _ => trivial) (fun _ _ _ => trivial) fun _ => ⟨trivial, trivial⟩)

theorem statusText_ensureBackendConn {addr name pool : GoString} :
    statusText cfg (ensureBackendConn w addr name pool s).2 = statusText cfg s := by
  unfold ensureBackendConn Session.switchTo Session.closeBackend
  split
  · rfl
  · split
    · dsimp only
      split <;> rfl
    · rfl

theorem statusText_ensureBackend {db : GoString} :
    statusText cfg (ensureBackend cfg w db s).2 = statusText cfg s := by
  unfold ensureBackend
  dsimp only
  split
  · rfl
  · split
    · rfl
    · rw [statusText_ensureBackendConn]
      rfl

theorem statusText_routeQualified :
    statusText cfg (routeQualified cfg w parsed s).2 = statusText cfg s := by
  have routed : statusText cfg (ensureBackend cfg w parsed.db s).2 = statusText cfg s :=
    statusText_ensureBackend
  unfold routeQualified
  split
  · split <;> rename_i made <;> rw [made] at routed <;> exact routed
  · rfl

theorem covered_handleSingleQuery {query : GoString} {original : ParsedQuery} (covered : Covered s)
    (guard : statementTracked cfg w s (statementParsed query original) = true) :
    Covered (handleSingleQuery cfg w query original s).2 := by
  unfold handleSingleQuery
  dsimp only
  generalize statementParsed query original = parsed at guard ⊢
  have routed : Covered (routeQualified cfg w parsed s).2 :=
    covered.moves (moves_routeQualified False.elim)
  have status : statusText cfg (routeQualified cfg w parsed s).2 = statusText cfg s :=
    statusText_routeQualified
  split <;> rename_i made <;> rw [made] at routed status
  · exact routed
  · refine covered_handleKind routed ?_
    unfold statementTracked at guard ⊢
    rw [status]
    exact guard

theorem covered_dispatch {input : Input} (covered : Covered s)
    (guard : inputTracked cfg s (input, w) = true) : Covered (dispatch cfg w input s).2 := by
  cases input with
  | initDB dbName => exact covered.moves (moves_handleUse False.elim False.elim fun _ => guard)
  | stmtPrepare query => exact covered.moves (moves_handlePrepare False.elim)
  | stmtExecute data =>
    exact covered.moves
      (moves_handleExecute False.elim False.elim (fun _ => guard) (fun _ _ => trivial)
      (fun _ _ _ _ _ _ => trivial) (fun _ _ _ => trivial) fun _ _ => ⟨trivial, trivial⟩)
  | stmtClose data => exact covered.moves (moves_handleStmtClose False.elim)
  | stmtReset data => exact covered.moves (moves_handleStmtReset False.elim)
  | quit | fieldList | ping | query | nextStatement | other => exact covered

theorem covered_step {a : Input × World} (covered : Covered s) (guard : inputTracked cfg s a = true)
    (taken : step cfg s a = some t) : Covered t := by
  rcases step_cases taken with ⟨query, rest, waiting, next, rfl⟩ | ⟨text, rfl⟩ | rfl
  · have handled :
        Covered (handleSingleQuery cfg a.2 query s.original { s with pending := rest }).2 := by
      refine covered_handleSingleQuery covered ?_
      simp only [inputTracked, next, waiting] at guard
      exact guard
    unfold nextStatement
    split <;> rename_i made <;> rw [made] at handled <;> exact handled
  · exact covered
  · exact covered_dispatch covered guard

theorem writesKept_step {a : Input × World} (kept : WritesKept s.events) (covered : Covered s)
    (guard : tracked cfg s a = true) (taken : step cfg s a = some t) : WritesKept t.events := by
  intro conn route mem
  rcases step_emitted taken _ mem with old | ⟨session, batchable, managed, placed⟩
  · exact kept conn route old
  · have current : s.sessionOpen = true ∧ s.backend = some conn := by
      unfold Session.openSession at session
      split at session
      · rename_i opened
        exact ⟨opened, session.symm⟩
      · cases session
    have home : inputHome cfg s a.1 = true := by
      simp only [tracked, current.1, batchable, Bool.and_eq_true] at guard
      simpa using guard.2
    cases route with
    | manager =>
      have low := managed rfl
      rw [covered current.1] at low
      cases low
    | backend conn' =>
      have same := placed conn' rfl home (by simp [current.2])
      rw [current.2] at same
      cases same
      rfl

theorem covered_handleConnection {db : GoString} (named : noStart .mysql (useStatement db) = true)
    (connected : handleConnection cfg w db = some s) : Covered s ∧ WritesKept s.events := by
  obtain ⟨pool, -, ⟨-, rfl⟩ | ⟨-, rfl⟩⟩ := handleConnection_cases connected
  · exact ⟨fun opened => (by cases opened), by simp [WritesKept, greeted]⟩
  · constructor
    · refine Covered.moves ?_ (moves_exchange False.elim fun _ => quietCommand_query named)
      intro opened
      cases opened
    · intro conn route mem
      have logged := (moves_exchange (L := ⟨False, False, fun e => e ≠ .write (some conn) route, by
        rintro e plain rfl
        cases plain⟩) False.elim False.elim).emitted _ mem
      simp [greeted] at logged

end MariaDB

namespace Postgres

variable {cfg : ProxyConfig} {w : World} {s t : Session} {parsed : ParsedQuery}

def Covered (s : Session) : Prop := s.sessionOpen = true → s.inTransaction = true

def quieted : Limits where
  silent := True
  emits := fun _ => True
  plain := fun _ _ => trivial

theorem Covered.moves (covered : Covered s) (moves : Moves quieted s t) : Covered t := by
  intro opened
  rw [moves.flag]
  exact covered (moves.opened trivial opened)

theorem permits_quieted {arrived : Option Nat} : Permits quieted s parsed arrived :=
  ⟨fun _ _ => trivial, fun _ _ _ => trivial, fun _ => trivial⟩

/-- A text starts a transaction only where the proxy raises its flag, and a text
that lowers the flag is executed and leaves no transaction open. -/
def textTracked (w : World) (payload : List UInt8) (s : Session) : Bool :=
  let query := queryText payload
  let parsed := parse query
  if asksStatus query || beginsTransaction query then true
  else if finishesTransaction query then
    !parsed.isCacheable && !parsed.isBatchable &&
      !openAfter .postgres s.sessionOpen parsed.query w.executed
  else noStart .postgres parsed.query

def tracked (s : Session) (a : Message × World) : Bool :=
  match a.1 with
  | .query payload => textTracked a.2 payload s
  | .execute payload => (portalFor s payload).all fun (parsed, _) => noStart .postgres parsed.query
  | _ => true

theorem moves_text {arrived : Option Nat} (quiet : noStart .postgres parsed.query = true) :
    Moves quieted s (handleText w parsed arrived s).2 :=
  moves_handleText (fun _ => quiet) (fun _ _ => trivial) (fun _ _ => trivial) (fun _ => trivial)
    fun _ => ⟨trivial, trivial⟩

theorem flag_handleText {arrived : Option Nat} :
    (handleText w parsed arrived s).2.inTransaction = s.inTransaction :=
  (moves_handleText (L := ⟨False, fun _ => True, fun _ _ => trivial⟩) False.elim
    (fun _ _ => trivial) (fun _ _ => trivial) (fun _ => trivial) fun _ => ⟨trivial, trivial⟩).flag

theorem sessionOpen_handleText {arrived : Option Nat} (uncached : parsed.isCacheable = false)
    (direct : parsed.isBatchable = false) :
    (handleText w parsed arrived s).2.sessionOpen =
      openAfter .postgres s.sessionOpen parsed.query w.executed := by
  have unserved : serveCached w parsed s = none := by simp [serveCached, uncached]
  simp only [handleText, uncached, unserved, direct, textKey, executeQuery, selectBackend,
    noteWrite,
    Bool.false_and, Bool.and_false, Bool.false_eq_true, if_false]
  cases w.failure with
  | none => cases parsed.labelled <;> rfl
  | some e => rfl

theorem covered_handleQuery {payload : List UInt8} (covered : Covered s)
    (guard : textTracked w payload s = true) : Covered (handleQuery w payload s).2 := by
  simp only [textTracked] at guard
  by_cases status : asksStatus (queryText payload) = true
  · simpa [handleQuery, status] using covered
  · by_cases begins : beginsTransaction (queryText payload) = true
    · intro _
      simp [handleQuery, status, flag_handleText, trackTransaction, begins]
    · by_cases finishes : finishesTransaction (queryText payload) = true
      · intro opened
        have same := (trackTransaction_rest (queryText payload) s).2.1
        simp only [status, begins, finishes, Bool.or_self, Bool.false_eq_true, if_false, if_true,
          Bool.and_eq_true, Bool.not_eq_true'] at guard
        simp only [handleQuery, status, Bool.false_eq_true, if_false] at opened
        rw [sessionOpen_handleText guard.1.1 guard.1.2, same, guard.2] at opened
        cases opened
      · simp only [handleQuery, trackTransaction, status, begins, finishes, Bool.false_eq_true,
          if_false]
        refine covered.moves (moves_text ?_)
        simpa [status, begins, finishes] using guard

theorem covered_step {a : Message × World} (covered : Covered s) (guard : tracked s a = true)
    (taken : step s a = some t) : Covered t := by
  unfold step at taken
  split at taken
  · cases taken
  · cases taken
    obtain ⟨message, w⟩ := a
    cases message with
    | query payload => exact covered_handleQuery covered guard
    | execute payload =>
      have handled : Covered (handleExecute w payload s).2 := by
        rw [handleExecute_portal]
        split
        · exact covered
        · rename_i parsed params found
          refine covered.moves (moves_executePortal (fun _ => ?_) permits_quieted
            fun _ _ => ⟨trivial, trivial⟩)
          simpa [tracked, found] using guard
      exact handled
    | parse payload => exact covered.moves moves_handleParse
    | bind payload => exact covered.moves moves_handleBind
    | close payload => exact covered.moves moves_handleClose
    | describe | sync | terminate | other => exact covered

theorem flagAfter_of_tracked {a : Message × World} (covered : Covered s)
    (opened : s.sessionOpen = true) (guard : tracked s a = true)
    (batchable : batchableMessage s a.1 = true) :
    flagAfter s a.1 = true := by
  obtain ⟨message, w⟩ := a
  cases message with
  | query payload =>
    have high := covered opened
    simp only [tracked, textTracked] at guard
    simp only [batchableMessage, messageParsed] at batchable
    simp only [flagAfter, trackTransaction]
    split_ifs at guard batchable ⊢ <;> simp_all
  | execute | parse | bind | close | describe | sync | terminate | other => exact covered opened

theorem writesKept_step {a : Message × World} (kept : WritesKept s.events) (covered : Covered s)
    (guard : tracked s a = true) (taken : step s a = some t) : WritesKept t.events := by
  intro conn route mem
  rcases step_emitted taken _ mem with old | ⟨session, batchable, managed, placed⟩
  · exact kept conn route old
  · have current : s.sessionOpen = true ∧ conn = 0 := by
      unfold Session.openSession at session
      split at session
      · rename_i opened
        exact ⟨opened, Option.some.inj session⟩
      · cases session
    cases route with
    | manager =>
      have low := managed rfl
      rw [flagAfter_of_tracked covered current.1 guard batchable] at low
      cases low
    | backend conn' => rw [current.2, placed conn' rfl]

theorem covered_handleConnection {user database : GoString}
    (connected : handleConnection cfg user database = some s) :
      Covered s ∧ WritesKept s.events := by
  unfold handleConnection at connected
  dsimp only at connected
  split at connected
  · cases connected
  · cases connected
    exact ⟨fun opened => (by cases opened), by simp [WritesKept]⟩

end Postgres

theorem open_transaction_keeps_writes (cfg : ProxyConfig) :
    (∀ w db init s, MariaDB.handleConnection cfg w db = some init →
      noStart .mysql (MariaDB.useStatement db) = true →
      Reach (MariaDB.step cfg) (fun s a => MariaDB.tracked cfg s a = true) init s →
        ∀ conn route, .write (some conn) route ∈ s.events → route = .backend conn) ∧
    (∀ user database init s, Postgres.handleConnection cfg user database = some init →
      Reach Postgres.step (fun s a => Postgres.tracked s a = true) init s →
        ∀ conn route, .write (some conn) route ∈ s.events → route = .backend conn) := by
  constructor
  · intro w db init s connected named run
    refine (run.invariant (P := fun s => MariaDB.Covered s ∧ WritesKept s.events)
      (MariaDB.covered_handleConnection named connected) ?_).2
    intro s a t before guard taken
    have parts := guard
    simp only [MariaDB.tracked, Bool.and_eq_true] at parts
    exact ⟨MariaDB.covered_step before.1 parts.1 taken,
      MariaDB.writesKept_step before.2 before.1 guard taken⟩
  · intro user database init s connected run
    refine (run.invariant (P := fun s => Postgres.Covered s ∧ WritesKept s.events)
      (Postgres.covered_handleConnection connected) ?_).2
    intro s a t before guard taken
    exact ⟨Postgres.covered_step before.1 guard taken,
      Postgres.writesKept_step before.2 before.1 guard taken⟩

def batchedInsert : String := "/* batch:10 */ INSERT INTO t VALUES (1)"

theorem open_transaction_keeps_writes_begin :
    (∃ s : MariaDB.Session, .write (some 0) (.backend 0) ∈ s.events ∧
      ∀ conn route, .write (some conn) route ∈ s.events → route = .backend conn) ∧
    (∃ s : Postgres.Session, .write (some 0) (.backend 0) ∈ s.events ∧
      ∀ conn route, .write (some conn) route ∈ s.events → route = .backend conn) := by
  constructor
  · obtain ⟨s, reach, seen⟩ := checked_of_test (MariaDB.step MariaDB.replicated)
      (MariaDB.tracked MariaDB.replicated) MariaDB.client
      (MariaDB.sending ["begin;", batchedInsert, "COMMIT"])
      (fun s => .write (some 0) (.backend 0) ∈ s.events) (by decide +kernel)
    exact ⟨s, by simpa using seen,
      (open_transaction_keeps_writes _).1 _ _ _ _ MariaDB.client_connected (by decide) reach⟩
  · obtain ⟨s, reach, seen⟩ := checked_of_test Postgres.step Postgres.tracked Postgres.client
      (Postgres.sending ["begin work", batchedInsert, "COMMIT"])
      (fun s => .write (some 0) (.backend 0) ∈ s.events) (by decide +kernel)
    exact ⟨s, by simpa using seen,
      (open_transaction_keeps_writes _).2 _ _ _ _ Postgres.client_connected reach⟩

/-- `BEGIN WORK` is not seen by the MariaDB proxy, a trailing semicolon hides the
BEGIN from the PostgreSQL proxy, and so does the extended protocol. -/
theorem open_transaction_loses_write :
    (MariaDB.handleConnection MariaDB.replicated {} [] = some MariaDB.client ∧
      ∃ s, Reach (MariaDB.step MariaDB.replicated) free MariaDB.client s ∧
        .write (some 0) .manager ∈ s.events) ∧
    (Postgres.handleConnection Postgres.single (lit "ann") (lit "shop") = some Postgres.client ∧
      ∃ s, Reach Postgres.step free Postgres.client s ∧ .write (some 0) .manager ∈ s.events) ∧
    (∃ s, Reach Postgres.step free Postgres.client s ∧ .write (some 0) .manager ∈ s.events ∧
      .sent none 0 (.queryArgs (lit "BEGIN") []) ∈ s.events) := by
  refine ⟨⟨MariaDB.client_connected, ?_⟩, ⟨Postgres.client_connected, ?_⟩, ?_⟩
  · obtain ⟨s, reach, seen⟩ := free_of_test (MariaDB.step MariaDB.replicated) MariaDB.client
      (MariaDB.sending ["BEGIN WORK", batchedInsert])
      (fun s => .write (some 0) .manager ∈ s.events) (by decide +kernel)
    exact ⟨s, reach, by simpa using seen⟩
  · obtain ⟨s, reach, seen⟩ := free_of_test Postgres.step Postgres.client
      (Postgres.sending ["BEGIN;", batchedInsert])
      (fun s => .write (some 0) .manager ∈ s.events) (by decide +kernel)
    exact ⟨s, reach, by simpa using seen⟩
  · obtain ⟨s, reach, seen⟩ := free_of_test Postgres.step Postgres.client
      ([(.parse (0 :: lit "BEGIN" ++ [0, 0, 0]), ({} : Postgres.World)),
        (.bind [0, 0, 0, 0, 0, 0, 0, 0], {}), (.execute [0, 0, 0, 0, 0], {})] ++
        Postgres.sending [batchedInsert])
      (fun s => .write (some 0) .manager ∈ s.events &&
        .sent none 0 (.queryArgs (lit "BEGIN") []) ∈ s.events) (by decide +kernel)
    exact ⟨s, reach, by simpa using seen⟩

end TQDBProxy
