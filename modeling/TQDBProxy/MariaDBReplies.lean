import TQDBProxy.MariaDBDatabase

/-! What the client of the MariaDB proxy is sent in a step. An error of a handler is
written by the loop over the commands; a new backend connection makes the client
authenticate again, in the middle of a command. -/

namespace TQDBProxy.MariaDB

open GuardedRuns TQDBProxy.Parser

/-- Beside the answers of a step: whether a dial that fails gets as far as the
authentication, and the answer after a LOCAL INFILE transfer. -/
structure Outside extends World where
  asked : Bool := false
  final : List UInt8 := []

inductive Cause where
  | failure (f : Failure)
  | manager (e : WriteError)
  deriving DecidableEq

/-- A packet of the proxy, or a response that it passes on; `more` announces another
result. -/
inductive Reply where
  | ok (rows id : Int) (inTrans more : Bool)
  | error (cause : Cause)
  | eof (inTrans : Bool)
  | forwarded (response : List UInt8) (more : Bool)
  | prepared (response : List UInt8)
  | authSwitch
  deriving DecidableEq

def Outside.response (o : Outside) : List UInt8 := o.reply.getD []

def received (o : Outside) (more : Bool) (s : Session) (success : Session → List Reply) :
    Handled → List Reply
  | (failure, t) =>
    if !o.client then []
    else List.replicate (t.dialled - s.dialled) .authSwitch ++
      if t.panicked then []
      else
        match failure with
        | none => success t
        | some (.dial addr) =>
          (if o.asked then [.authSwitch] else []) ++ [.error (.failure (.dial addr))]
        | some .localInfile => [.forwarded o.response more, .error (.failure .localInfile)]
        | some f => [.error (.failure f)]

def queryReply (o : Outside) (more : Bool) : List Reply :=
  if firstByte o.response = some 0xFB then [.forwarded o.response more, .forwarded o.final more]
  else [.forwarded o.response more]

theorem queryReply_plain {o : Outside} {more : Bool}
    (plain : ∀ response, o.reply = some response → firstByte response ≠ some 0xFB) :
    queryReply o more = [.forwarded o.response more] := by
  unfold queryReply Outside.response
  rw [if_neg]
  cases reply : o.reply with
  | none => decide
  | some response => exact plain response reply

def cachedResponse (w : World) (parsed : ParsedQuery) : Option (List UInt8) :=
  if !parsed.isCacheable then none
  else
    match w.get with
    | some (cached, .fresh) => some cached
    | some (cached, .stale) => some cached
    | _ =>
      match w.getOrWait with
      | (some cached, true) => some cached
      | _ => none

def batchReply (o : Outside) (more : Bool) (t : Session) : List Reply :=
  match o.enqueue.error with
  | none => [.ok o.enqueue.affectedRows o.enqueue.lastInsertId t.statusInTrans more]
  | some e => if retried e then [.forwarded o.response more] else [.error (.manager e)]

def statementReply (o : Outside) (parsed : ParsedQuery) (more : Bool) (s t : Session) :
    List Reply :=
  match statementKind parsed.query with
  | .use _ | .begin | .commit | .rollback => [.ok 0 0 t.statusInTrans more]
  | .status => [.forwarded o.response more]
  | .other =>
    if !s.inTransaction && parsed.isWritable && parsed.isBatchable then batchReply o more t
    else
      match cachedResponse o.toWorld parsed with
      | some cached => [.forwarded cached more]
      | none => queryReply o more

def batchesExecute (s : Session) (data : List UInt8) (parsed : ParsedQuery) : Bool :=
  !s.inTransaction && parsed.isWritable && parsed.isBatchable &&
    match decodeStmtParams data parsed.query with
    | .ok _ => true
    | _ => false

def executeReply (o : Outside) (data : List UInt8) (parsed : ParsedQuery) (s t : Session) :
    List Reply :=
  if batchesExecute s data parsed then batchReply o false t
  else
    match o.get with
    | some (cached, _) =>
      if parsed.isCacheable then [.forwarded cached false] else queryReply o false
    | none => queryReply o false

def dispatchReply (o : Outside) (input : Input) (s t : Session) : List Reply :=
  match input with
  | .initDB _ | .ping => [.ok 0 0 t.statusInTrans false]
  | .fieldList => [.eof t.statusInTrans]
  | .stmtPrepare _ => [.prepared o.response]
  | .stmtExecute data =>
    match preparedFor s data with
    | some parsed => executeReply o data parsed s t
    | none => []
  | .stmtReset _ => [.forwarded o.response false]
  | .quit | .query _ | .nextStatement | .stmtClose _ | .other _ => []

def replies (cfg : ProxyConfig) (s : Session) (input : Input) (o : Outside) : List Reply :=
  match s.pending with
  | query :: rest =>
    let u := { s with pending := rest }
    let parsed := statementParsed query s.original
    received o (rest ≠ []) s
      (statementReply o parsed (rest ≠ []) (routeQualified cfg o.toWorld parsed u).2)
      (handleSingleQuery cfg o.toWorld query s.original u)
  | [] => received o false s (dispatchReply o input s) (dispatch cfg o.toWorld input s)

def Reported (replies : List Reply) : Prop :=
  (∃ cause, .error cause ∈ replies) ∧ ∀ rows id inTrans more, .ok rows id inTrans more ∉ replies

structure Undisturbed (s t : Session) : Prop where
  db : t.db = s.db
  flag : t.inTransaction = s.inTransaction
  status : t.statusInTrans = s.statusInTrans

/-- The proxy's database when the step sends a USE, BEGIN, COMMIT or ROLLBACK of its own;
none if it sends no such statement. -/
def controlDb (cfg : ProxyConfig) (w : World) (s : Session) : Input → Option GoString
  | .initDB dbName => if (ensureBackend cfg w dbName s).1 = none then some dbName else none
  | .nextStatement =>
    match s.pending with
    | [] => none
    | query :: rest =>
      let parsed := statementParsed query s.original
      match routeQualified cfg w parsed { s with pending := rest } with
      | (some _, _) => none
      | (none, t) =>
        match statementKind parsed.query with
        | .use dbName => if (ensureBackend cfg w dbName t).1 = none then some dbName else none
        | .begin | .commit | .rollback => if t.backend.isSome then some t.db else none
        | .status | .other => none
  | _ => none

variable {cfg : ProxyConfig} {w : World} {s t u : Session} {h : Handled} {parsed : ParsedQuery}
  {o : Outside}

/-- How a control statement ends that is sent in a session: an answer, whichever, is
taken for a success. -/
structure Controlled (w : World) (u : Session) (h : Handled) : Prop where
  lost : w.reply = none → h.1 = some .backend ∧ Undisturbed u h.2
  answered : w.reply.isSome = true → h.1 = if w.client then none else some .client
  db : h.2.db = u.db
  alive : h.2.panicked = u.panicked

theorem controlled_exchange {c : Command} {f : Session → Session}
    (current : u.backend.isSome = true) (db : ∀ v, (f v).db = v.db)
    (alive : ∀ v, (f v).panicked = v.panicked) (handled : h = match exchange w c u with
      | (none, v) => (some .backend, v)
      | (some _, v) => writeClient w (f v)) : Controlled w u h := by
  obtain ⟨conn, current⟩ := Option.isSome_iff_exists.mp current
  subst handled
  simp only [exchange, current]
  cases reply : w.reply with
  | none =>
    have kept : ∀ v : Session, v.resetBackend.db = v.db ∧
      v.resetBackend.inTransaction = v.inTransaction ∧
        v.resetBackend.statusInTrans = v.statusInTrans ∧ v.resetBackend.panicked = v.panicked := by
      intro v
      unfold Session.resetBackend Session.closeBackend
      cases v.backend <;> exact ⟨rfl, rfl, rfl, rfl⟩
    obtain ⟨sameDb, flag, status, panicked⟩ := kept (u.note (.sent u.begun conn c))
    exact ⟨fun _ => ⟨rfl, sameDb, flag, status⟩, fun some => by simp [reply] at some, sameDb,
      panicked⟩
  | some response =>
    exact ⟨fun none => by simp [reply] at none, fun _ => rfl, db _, alive _⟩

theorem controlled_relay {c : Command} (current : u.backend.isSome = true) :
    Controlled w u (relay w c u) :=
  controlled_exchange (f := id) current (fun _ => rfl) (fun _ => rfl) rfl

theorem controlled_handleBegin (current : u.backend.isSome = true) :
    Controlled w u (handleBegin w u) :=
  controlled_exchange (c := .query (lit "BEGIN"))
    (f := fun v => { v with statusInTrans := true, inTransaction := true, begun := v.backend })
    current (fun _ => rfl) (fun _ => rfl) rfl

theorem controlled_finishTransaction {text : String} (current : u.backend.isSome = true) :
    Controlled w u (finishTransaction text w u) :=
  controlled_exchange (c := .query (lit text))
    (f := fun v => { v with statusInTrans := false, inTransaction := false, begun := none })
    current (fun _ => rfl) (fun _ => rfl) rfl

def loose : Limits where
  stays := False
  silent := False
  emits := fun _ => True
  plain := fun _ _ => trivial

theorem controlled_handleUse {dbName : GoString} (made : (ensureBackend cfg w dbName s).1 = none) :
    ∃ v, Controlled w v (handleUse cfg w dbName s) ∧ v.db = dbName ∧
      v.panicked = s.panicked ∧ Moves loose s v := by
  obtain ⟨v, routed⟩ : ∃ v, ensureBackend cfg w dbName s = (none, v) := ⟨_, Prod.ext made rfl⟩
  have routes := routes_of_ensureBackend routed
  have moves : Moves loose s (ensureBackend cfg w dbName s).2 := moves_ensureBackend False.elim
  rw [routed] at moves
  refine ⟨{ v with db := dbName }, ?_, rfl, routes.panicked, moves.congr rfl⟩
  rw [handleUse, routed]
  exact controlled_relay routes.connected

theorem control_sent {query : GoString} {rest : List GoString} {d : GoString}
    (waiting : s.pending = query :: rest) (sent : controlDb cfg w s .nextStatement = some d) :
    ∃ v, Controlled w v (handleSingleQuery cfg w query s.original { s with pending := rest }) ∧
      v.db = d ∧ v.panicked = s.panicked ∧ Moves loose s v ∧
        ∀ o more r t, statementReply o (statementParsed query s.original) more r t =
          [.ok 0 0 t.statusInTrans more] := by
  simp only [controlDb, waiting] at sent
  unfold handleSingleQuery
  dsimp only
  generalize statementParsed query s.original = parsed at sent
  have started : Moves loose s { s with pending := rest } := (moves_refl loose s).congr rfl
  have moves : Moves loose s (routeQualified cfg w parsed { s with pending := rest }).2 :=
    started.trans (moves_routeQualified False.elim)
  rcases routed : routeQualified cfg w parsed { s with pending := rest } with ⟨failure, v⟩
  rw [routed] at sent moves
  cases failure with
  | some f => cases sent
  | none =>
    have alive : v.panicked = s.panicked := (qualifies_of_routeQualified routed).panicked
    dsimp only
    unfold handleKind statementReply
    cases kind : statementKind parsed.query with
    | use dbName =>
      simp only [kind, Option.ite_none_right_eq_some, Option.some.injEq] at sent
      obtain ⟨made, rfl⟩ := sent
      obtain ⟨x, controlled, db, running, moved⟩ := controlled_handleUse made
      exact ⟨x, controlled, db, running.trans alive, moves.trans moved, fun _ _ _ _ => rfl⟩
    | begin =>
      simp only [kind, Option.ite_none_right_eq_some, Option.some.injEq] at sent
      exact ⟨v, controlled_handleBegin sent.1, sent.2, alive, moves, fun _ _ _ _ => rfl⟩
    | commit | rollback =>
      simp only [kind, Option.ite_none_right_eq_some, Option.some.injEq] at sent
      exact ⟨v, controlled_finishTransaction sent.1, sent.2, alive, moves, fun _ _ _ _ => rfl⟩
    | status | other =>
      simp only [kind] at sent
      cases sent

theorem reported_iff_lost {more : Bool} {success : Session → List Reply}
    (controlled : Controlled o.toWorld u h) (alive : u.panicked = false)
    (confirms : ∀ t, success t = [.ok 0 0 t.statusInTrans more]) :
    Reported (received o more s success h) ↔ o.reply = none ∧ o.client = true := by
  obtain ⟨failure, t⟩ := h
  have running : t.panicked = false := controlled.alive.trans alive
  cases listening : o.client with
  | false => simp [received, listening, Reported]
  | true =>
    cases reply : o.reply with
    | none =>
      obtain ⟨rfl, -⟩ := controlled.lost reply
      simp [received, listening, running, Reported]
    | some response =>
      have ended : failure = if o.client then none else some .client :=
        controlled.answered (by rw [reply]; rfl)
      rw [listening] at ended
      obtain rfl : failure = none := ended
      simp [received, listening, running, Reported, confirms]

theorem refusal_iff {more : Bool} {success : Session → List Reply} {d : GoString}
    (controlled : Controlled o.toWorld u h) (alive : u.panicked = false)
    (confirms : ∀ t, success t = [.ok 0 0 t.statusInTrans more]) (moves : Moves loose s u)
    (database : u.db = d) :
    (Reported (received o more s success h) ∧ Undisturbed s h.2) ↔
      (o.reply = none ∧ o.client = true ∧ d = s.db) := by
  rw [reported_iff_lost controlled alive confirms, and_assoc]
  refine and_congr_right fun lost => and_congr_right fun _ => ?_
  constructor
  · intro same
    rw [← database, ← controlled.db, same.db]
  · intro same
    have kept := (controlled.lost lost).2
    exact ⟨by rw [controlled.db, database, same], kept.flag.trans moves.flag,
      kept.status.trans moves.status⟩

theorem undisturbed_nextStatement {query : GoString} {rest : List GoString} :
    Undisturbed s (nextStatement cfg w query rest s) ↔
      Undisturbed s (handleSingleQuery cfg w query s.original { s with pending := rest }).2 := by
  unfold nextStatement
  split <;> rename_i made <;> rw [made]
  exact ⟨fun same => ⟨same.db, same.flag, same.status⟩,
    fun same => ⟨same.db, same.flag, same.status⟩⟩

/-- An error of a USE, BEGIN, COMMIT or ROLLBACK is reported and nothing changed exactly when
the connection is lost and the database was the current one. -/
theorem control_reported_iff {d : GoString} {input : Input}
    (taken : step cfg s (input, o.toWorld) = some t)
    (sent : controlDb cfg o.toWorld s input = some d) :
    (Reported (replies cfg s input o) ∧ Undisturbed s t) ↔
      (o.reply = none ∧ o.client = true ∧ d = s.db) := by
  have alive : s.panicked = false := step_alive taken
  unfold step at taken
  rw [alive] at taken
  unfold replies
  cases waiting : s.pending with
  | nil =>
    rw [waiting] at taken
    cases input with
    | initDB dbName =>
      simp only [controlDb, Option.ite_none_right_eq_some, Option.some.injEq] at sent
      obtain ⟨made, rfl⟩ := sent
      obtain ⟨v, controlled, db, running, moves⟩ := controlled_handleUse made
      cases taken
      exact refusal_iff controlled (running.trans alive) (fun _ => rfl) moves db
    | nextStatement => cases taken
    | _ => cases sent
  | cons query rest =>
    simp only [waiting, Bool.false_eq_true, if_false, Option.ite_none_right_eq_some,
      Option.some.injEq] at taken
    obtain ⟨rfl, rfl⟩ := taken
    obtain ⟨v, controlled, db, running, moves, confirms⟩ := control_sent waiting sent
    rw [undisturbed_nextStatement]
    exact refusal_iff controlled (running.trans alive) (confirms o _ _) moves db

/-- A refused control statement is reported and leaves the session unchanged exactly when the
connection fails and the database was the current one. -/
theorem refusal_reported_iff {cfg : ProxyConfig} {s t : Session} {input : Input} {o : Outside}
    {d : GoString} (taken : step cfg s (input, o.toWorld) = some t)
    (sent : controlDb cfg o.toWorld s input = some d) :
    (o.accepted = false → Reported (replies cfg s input o) ∧ Undisturbed s t) ↔
      (o.accepted = true ∨ o.reply = none ∧ o.client = true ∧ d = s.db) := by
  rw [control_reported_iff taken sent]
  cases o.accepted <;> simp

def Session.asked (text : String) (s : Session) : Session :=
  { s with pending := [lit text], original := parse (lit text) }

/-- A lost BEGIN is reported, and no transaction is open after it. -/
theorem refusal_reported_begin :
    ∃ t, step replicated (client.asked "BEGIN") (.nextStatement, { reply := none }) = some t ∧
      Reported (replies replicated (client.asked "BEGIN") .nextStatement { reply := none }) ∧
        Undisturbed (client.asked "BEGIN") t := by
  refine ⟨_, rfl, ?_⟩
  have sent : controlDb replicated { reply := none } (client.asked "BEGIN") .nextStatement =
    some [] := by
    decide
  exact (refusal_reported_iff (o := { reply := none }) rfl sent).mpr (.inr ⟨rfl, rfl, rfl⟩) rfl

def errorResponse : List UInt8 := [9, 0, 0, 1, 255, 81, 4] ++ lit "#HY000"

/-- A COMMIT that the backend refuses is confirmed to the client. -/
theorem refused_commit_confirmed :
    handleConnection replicated {} [] = some client ∧
      ∃ s t, Reach (step replicated) free client s ∧
        step replicated s (.nextStatement, { reply := some errorResponse }) = some t ∧
        controlDb replicated { reply := some errorResponse } s .nextStatement = some [] ∧
        ({ reply := some errorResponse } : World).accepted = false ∧
        replies replicated s .nextStatement { reply := some errorResponse } =
          [.ok 0 0 false false] ∧
        s.inTransaction = true ∧ t.inTransaction = false := by
  refine ⟨client_connected, ?_⟩
  obtain ⟨s, reach, seen⟩ :=
    free_of_test (step replicated) client (sending ["BEGIN"] ++ asking "COMMIT")
    (fun s => (step replicated s (.nextStatement, { reply := some errorResponse })).any
        (!·.inTransaction) && s.inTransaction &&
      controlDb replicated { reply := some errorResponse } s .nextStatement == some [] &&
      replies replicated s .nextStatement { reply := some errorResponse } == [.ok 0 0 false false])
    (by decide)
  simp only [Bool.and_eq_true, Option.any_eq_true, beq_iff_eq, Bool.not_eq_true'] at seen
  obtain ⟨⟨⟨⟨t, taken, ended⟩, begun⟩, sent⟩, told⟩ := seen
  exact ⟨s, t, reach, taken, sent, by decide, told, begun, ended⟩

end TQDBProxy.MariaDB
