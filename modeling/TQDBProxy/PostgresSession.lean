import TQDBProxy.ProxyEvents
import TQDBProxy.QueryParser
import TQDBProxy.TransactionControl

/-! One client connection of the PostgreSQL proxy as a state machine over the
frontend messages, each handled with the answers it gets from outside. Connection 0 is
the one to the primary, through which the client's own session runs. The messages
written to the client are left out but for the texts of errors. -/

namespace TQDBProxy.Postgres

open TQDBProxy.Parser SqlTokens

/-- The answers of one step; a query may end in a `failure` with its text, and
`executed` counts the statements of a text that the backend carries out. -/
structure World where
  get : Option (List UInt8 × CacheFlag) := none
  getOrWait : Option (List UInt8) × Bool := (none, false)
  replicas : PoolState := {}
  connects : GoString → Bool := fun _ => true
  failure : Option GoString := none
  executed : Nat := 1
  enqueue : WriteResult := {}

structure ConnState where
  shard : GoString
  pool : Pool
  database : GoString
  lastBackend : GoString := []
  lastCacheHit : Bool := false
  lastBatchSize : Nat := 0
  replicaDBs : List (GoString × Nat) := []
  preparedStatements : List (GoString × GoString) := []
  boundParams : List (GoString × List (Option GoString)) := []
  portalStatements : List (GoString × GoString) := []
  inTransaction : Bool := false

/-- Beside the state of the code: the number of connections, and whether the
client's session on the primary has a transaction open. A panic ends the proxy. -/
structure Session extends ConnState where
  dialled : Nat := 1
  sessionOpen : Bool := false
  events : List Event := []
  terminated : Bool := false
  panicked : Bool := false

abbrev Handled := Option GoString × Session

namespace Session

def note (e : Event) (s : Session) : Session := { s with events := e :: s.events }

def openSession (s : Session) : Option Nat := if s.sessionOpen then some 0 else none

def crash (s : Session) : Session := { s with panicked := true }

end Session

def runQuery (w : World) (conn : Nat) (text : GoString) (args : List Value) (s : Session) :
    Session :=
  { s.note (.sent none conn (.queryArgs text args)) with
    sessionOpen :=
      if conn = 0 then openAfter .postgres s.sessionOpen text w.executed else s.sessionOpen }

/-- The connection to a replica, opened when it is first needed. -/
def replicaDB (w : World) (addr : GoString) (s : Session) : Option Nat × Session :=
  match s.replicaDBs.find? (·.1 == addr) with
  | some (_, conn) => (some conn, s)
  | none =>
    if w.connects addr then
      (some s.dialled, { s.note (.dialed s.dialled addr s.database) with
        replicaDBs := (addr, s.dialled) :: s.replicaDBs, dialled := s.dialled + 1 })
    else (none, s)

def selectBackend (w : World) (parsed : ParsedQuery) (s : Session) : Nat × GoString × Session :=
  if parsed.isCacheable then
    let (addr, name) := (s.pool.getReplica w.replicas).1
    if name = lit "primary" then (0, name, s)
    else
      match replicaDB w addr s with
      | (some conn, s) => (conn, name, s)
      | (none, s) => (0, name, s)
  else (0, lit "primary", s)

theorem selectBackend_session (w : World) (parsed : ParsedQuery) (s : Session) :
    (selectBackend w parsed s).2.2 = s ∨ ∃ addr, (selectBackend w parsed s).2.2 =
      { s.note (.dialed s.dialled addr s.database) with
        replicaDBs := (addr, s.dialled) :: s.replicaDBs, dialled := s.dialled + 1 } := by
  have replica : ∀ addr, (replicaDB w addr s).2 = s ∨ (replicaDB w addr s).2 =
      { s.note (.dialed s.dialled addr s.database) with
        replicaDBs := (addr, s.dialled) :: s.replicaDBs, dialled := s.dialled + 1 } := by
    intro addr
    unfold replicaDB
    split
    · exact .inl rfl
    · split
      · exact .inr rfl
      · exact .inl rfl
  unfold selectBackend
  split
  · dsimp only
    split
    · exact .inl rfl
    · have dialled := replica (s.pool.getReplica w.replicas).1.1
      split <;> rename_i made <;> rw [made] at dialled <;> exact dialled.imp_right fun same =>
        ⟨_, same⟩
  · exact .inl rfl

def hit (name : String) (key : CacheKey) (s : Session) : Session :=
  { s.note (.served s.inTransaction key) with lastBackend := lit name, lastCacheHit := true }

/-- The two lookups of a cacheable text; none where it has to be executed. -/
def serveCached (w : World) (parsed : ParsedQuery) (s : Session) : Option Session :=
  if !parsed.isCacheable then none
  else
    match w.get with
    | some (_, .fresh) => some (hit "cache" (.text parsed.query) s)
    | some (_, .stale) => some (hit "cache (stale)" (.text parsed.query) s)
    | _ =>
      match w.getOrWait with
      | (some _, true) => some (hit "cache" (.text parsed.query) s)
      | _ => none

def storeResult (key : CacheKey) (ttl : Nat) (s : Session) : Session :=
  if 0 < ttlDuration ttl then s.note (.stored s.inTransaction key) else s

def errorText : WriteError → GoString
  | .managerClosed => lit "write batch manager is closed"
  | .timeout => lit "write batch operation timeout"
  | .canceled => lit "context canceled"
  | .database message => message

/-- The write is counted under its label before its result is looked at. -/
def batchWrite (w : World) (parsed : ParsedQuery) (params : List Value) (arrived : Option Nat)
    (s : Session) : Handled :=
  let s := (s.note (.write arrived .manager)).note
    (.enqueued s.database parsed.getBatchKey parsed.query params parsed.batchMs)
  if !parsed.labelled then (none, s.crash)
  else
    match w.enqueue.error with
    | some e => (some (errorText e), s)
    | none =>
      (none, { s with
        lastBackend := lit "write-batch", lastCacheHit := false
        lastBatchSize := w.enqueue.batchSize })

def noteWrite (parsed : ParsedQuery) (arrived : Option Nat) (conn : Nat) (s : Session) : Session :=
  if parsed.isBatchable then s.note (.write arrived (.backend conn)) else s

def executeQuery (w : World) (parsed : ParsedQuery) (args : List Value) (key : Option CacheKey)
    (arrived : Option Nat) (s : Session) : Handled :=
  let (conn, name, s) := selectBackend w parsed s
  let s := runQuery w conn parsed.query args (noteWrite parsed arrived conn s)
  match w.failure with
  | none =>
    let s := { s with lastBackend := name, lastCacheHit := false }
    if !parsed.labelled then (none, s.crash)
    else
      match key with
      | some key => (none, storeResult key parsed.ttl s)
      | none => (none, s)
  | some e =>
    match key with
    | some key => (some e, s.note (.cancelled key))
    | none => (some e, s)

def queryText (payload : List UInt8) : GoString :=
  if payload.getLast? = some 0 then payload.dropLast else payload

def upperText (query : GoString) : GoString := Strings.toUpper (Strings.trimSpace query)

def asksStatus (query : GoString) : Bool :=
  Strings.contains (upperText query) (lit "PG_TQDB_STATUS")

def beginsTransaction (query : GoString) : Bool :=
  upperText query = lit "BEGIN" || Strings.hasPrefix (upperText query) (lit "BEGIN ") ||
    upperText query = lit "START TRANSACTION"

def finishesTransaction (query : GoString) : Bool :=
  upperText query = lit "COMMIT" || upperText query = lit "ROLLBACK"

def trackTransaction (query : GoString) (s : Session) : Session :=
  if beginsTransaction query then { s with inTransaction := true }
  else if finishesTransaction query then { s with inTransaction := false }
  else s

def textKey (parsed : ParsedQuery) : Option CacheKey :=
  if parsed.isCacheable then some (.text parsed.query) else none

/-- A lookup in the cache is counted, whether it hits or not. -/
def handleText (w : World) (parsed : ParsedQuery) (arrived : Option Nat) (s : Session) : Handled :=
  if parsed.isCacheable && !parsed.labelled then (none, s.crash)
  else
    match serveCached w parsed s with
    | some s => (none, s)
    | none =>
      if !s.inTransaction && parsed.isWritable && parsed.isBatchable then
        batchWrite w parsed [] arrived s
      else executeQuery w parsed [] (textKey parsed) arrived s

def handleQuery (w : World) (payload : List UInt8) (s : Session) : Handled :=
  let query := queryText payload
  if asksStatus query then (none, s)
  else handleText w (parse query) s.openSession (trackTransaction query s)

def takeName : List UInt8 → Option (GoString × List UInt8)
  | [] => none
  | b :: rest =>
    if b = 0 then some ([], rest) else (takeName rest).map fun (name, after) => (b :: name, after)

def handleParse (payload : List UInt8) (s : Session) : Handled :=
  match takeName payload with
  | none => (some (lit "malformed Parse message: no statement name terminator"), s)
  | some (stmtName, rest) =>
    match takeName rest with
    | none => (some (lit "malformed Parse message: no query terminator"), s)
    | some (query, _) =>
      (none, { s with preparedStatements := (stmtName, query) :: s.preparedStatements })

def lookup {α : Type} (name : GoString) (table : List (GoString × α)) : Option α :=
  (table.find? (·.1 == name)).map (·.2)

/-- The values of a Bind message; a length is never negative in 64 bits, so no
value is taken for NULL. -/
def bindValues : Nat → List UInt8 → Except GoString (List (Option GoString))
  | 0, _ => .ok []
  | numParams + 1, rest =>
    if rest.length < 4 then .error (lit "malformed Bind message: incomplete parameter length")
    else
      let paramLen := Binary.bigEndian (rest.take 4)
      let rest := rest.drop 4
      if rest.length < paramLen then
        .error (lit "malformed Bind message: incomplete parameter value")
      else
        match bindValues numParams (rest.drop paramLen) with
        | .ok params => .ok (some (rest.take paramLen) :: params)
        | .error e => .error e

def bindParams (rest : List UInt8) : Except GoString (List (Option GoString)) :=
  if rest.length < 2 then .error (lit "malformed Bind message: incomplete format codes")
  else
    let rest := rest.drop (2 + 2 * Binary.bigEndian (rest.take 2))
    if rest.length < 2 then .error (lit "malformed Bind message: incomplete parameter count")
    else bindValues (Binary.bigEndian (rest.take 2)) (rest.drop 2)

def handleBind (payload : List UInt8) (s : Session) : Handled :=
  match takeName payload with
  | none => (some (lit "malformed Bind message: no portal name terminator"), s)
  | some (portalName, rest) =>
    match takeName rest with
    | none => (some (lit "malformed Bind message: no statement name terminator"), s)
    | some (stmtName, rest) =>
      if (lookup stmtName s.preparedStatements).isNone then
        (some (lit "unknown prepared statement: " ++ stmtName), s)
      else
        match bindParams rest with
        | .error e => (some e, s)
        | .ok params =>
          (none, { s with
            portalStatements := (portalName, stmtName) :: s.portalStatements
            boundParams := (portalName, params) :: s.boundParams })

def paramValue : Option GoString → Value
  | none => .null
  | some text => .string text

/-- How a parameter is printed into the bytes that are digested. -/
def printParam : Option GoString → GoString
  | none => lit "<nil>"
  | some text => text

def executeKey (database : GoString) (parsed : ParsedQuery) (params : List (Option GoString)) :
    Option CacheKey :=
  if parsed.isCacheable && !params.isEmpty then
    some (.prepared (database ++ parsed.query ++ params.flatMap printParam))
  else none

/-- A refresh is not served: the execution goes on to the backend. -/
def servePrepared (w : World) (key : Option CacheKey) (s : Session) : Option Session :=
  match key, w.get with
  | some key, some (_, .fresh) => some (hit "cache" key s)
  | some key, some (_, .stale) => some (hit "cache (stale)" key s)
  | _, _ => none

def executePortal (w : World) (parsed : ParsedQuery) (params : List (Option GoString))
    (s : Session) : Handled :=
  let key := executeKey s.database parsed params
  if key.isSome && !parsed.labelled then (none, s.crash)
  else
    match servePrepared w key s with
    | some s => (none, s)
    | none =>
      if !s.inTransaction && parsed.isWritable && parsed.isBatchable then
        batchWrite w parsed (params.map paramValue) s.openSession s
      else executeQuery w parsed (params.map paramValue) key s.openSession s

def portalStatement (s : Session) (portalName : GoString) : GoString :=
  (lookup portalName s.portalStatements).getD []

def portalParams (s : Session) (portalName : GoString) : List (Option GoString) :=
  (lookup portalName s.boundParams).getD []

def handleExecute (w : World) (payload : List UInt8) (s : Session) : Handled :=
  match takeName payload with
  | none => (some (lit "malformed Execute message: no portal name terminator"), s)
  | some (portalName, _) =>
    match lookup (portalStatement s portalName) s.preparedStatements with
    | none =>
      (some (lit "no prepared statement for portal: " ++ portalName ++ lit " (statement: " ++
        portalStatement s portalName ++ lit ")"), s)
    | some query => executePortal w (parse query) (portalParams s portalName) s

/-- The name in a Close message, which may lack its terminator. -/
def closeName (rest : List UInt8) : GoString :=
  match takeName rest with
  | some (name, _) => name
  | none => rest.dropLast

def handleClose (payload : List UInt8) (s : Session) : Session :=
  match payload with
  | closeType :: b :: rest =>
    let name := closeName (b :: rest)
    if closeType = 83 then
      { s with preparedStatements := s.preparedStatements.filter (·.1 != name) }
    else if closeType = 80 then { s with boundParams := s.boundParams.filter (·.1 != name) }
    else s
  | _ => s

inductive Message where
  | query (payload : List UInt8)
  | parse (payload : List UInt8)
  | bind (payload : List UInt8)
  | describe (payload : List UInt8)
  | execute (payload : List UInt8)
  | close (payload : List UInt8)
  | sync
  | terminate
  | other (msgType : UInt8)
  deriving DecidableEq

/-- A Describe, a Sync and an unknown message are only answered. -/
def handleMessage (w : World) (message : Message) (s : Session) : Session :=
  match message with
  | .query payload => (handleQuery w payload s).2
  | .parse payload => (handleParse payload s).2
  | .bind payload => (handleBind payload s).2
  | .execute payload => (handleExecute w payload s).2
  | .close payload => handleClose payload s
  | .terminate => { s with terminated := true }
  | .describe _ | .sync | .other _ => s

def step (s : Session) (a : Message × World) : Option Session :=
  if s.terminated || s.panicked then none else some (handleMessage a.2 a.1 s)

/-- The connection after start-up; the database defaults to the user's name. -/
def handleConnection (cfg : ProxyConfig) (user database : GoString) : Option Session :=
  let database := if database = [] then user else database
  match cfg.pools (cfg.shardName database) with
  | none => none
  | some pool =>
    some { shard := cfg.shardName database, pool := pool, database := database,
           events := [.dialed 0 pool.getPrimary database] }

def single : ProxyConfig where
  default := lit "main"
  dbMap := fun _ => []
  pools := fun name => if name = lit "main" then some ⟨lit "p:5432", []⟩ else none

def client : Session where
  shard := lit "main"
  pool := ⟨lit "p:5432", []⟩
  database := lit "shop"
  events := [.dialed 0 (lit "p:5432") (lit "shop")]

theorem client_connected : handleConnection single (lit "ann") (lit "shop") = some client := by rfl

def sending (texts : List String) : List (Message × World) :=
  texts.map fun text => (.query (lit text ++ [0]), {})

end TQDBProxy.Postgres
