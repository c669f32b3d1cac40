import TQDBProxy.ProxyEvents
import TQDBProxy.QueryParser
import TQDBProxy.StatementParams
import TQDBProxy.TransactionControl

/-! One client connection of the MariaDB proxy as a state machine. A step is a
client command or, for a COM_QUERY, the next of its statements, with the answers it gets
from outside. What is written to the client is left out but for whether the write
succeeds. -/

namespace TQDBProxy.MariaDB

open TQDBProxy.Parser SqlTokens

inductive Infile where
  | clientFails
  | backendFails
  | finished
  deriving DecidableEq

/-- The answers of one step. A `dial` is that of a user with a name: without one
`dialAndAuth` repeats the first handshake and takes the database from it. Without a `reply`
the backend connection fails; `more` are the packets after the first one of a prepare;
`executed` counts the statements of a text that the backend carries out. -/
structure World where
  dial : GoString → Bool := fun _ => true
  reply : Option (List UInt8) := some [7, 0, 0, 1, 0, 0, 0, 2, 0, 0, 0]
  more : Bool := true
  infile : Infile := .finished
  executed : Nat := 1
  get : Option (List UInt8 × CacheFlag) := none
  getOrWait : Option (List UInt8) × Bool := (none, false)
  replicas : PoolState := {}
  enqueue : WriteResult := {}
  client : Bool := true

structure ClientConn where
  backend : Option Nat
  backendPool : GoString
  backendAddr : GoString
  backendName : GoString
  db : GoString
  statusInTrans : Bool := false
  inTransaction : Bool := false
  lastQueryBackend : GoString := []
  lastQueryShard : GoString := []
  lastQueryCacheHit : Bool := false
  lastBatchSize : Nat := 0
  preparedStatements : List (Nat × ParsedQuery) := []

/-- The connection with the statements still to handle, and what the backends know: the
connection of the acknowledged BEGIN, whether the current one has a transaction open, and
the statements prepared on each. A panic is `mislabelled` when a metric refused its label. -/
structure Session extends ClientConn where
  pending : List GoString := []
  original : ParsedQuery := { query := [] }
  dialled : Nat := 0
  begun : Option Nat := none
  sessionOpen : Bool := false
  serverStatements : List (Nat × Nat × GoString) := []
  events : List Event := []
  panicked : Bool := false
  mislabelled : Bool := false

inductive Failure where
  | noPool (db : GoString)
  | dial (addr : GoString)
  | backend
  | client
  | localInfile
  | malformedExecute
  | unknownStatement (id : Nat)
  | unsupported (cmd : UInt8)
  | quit
  deriving DecidableEq

abbrev Handled := Option Failure × Session

namespace Session

def note (e : Event) (s : Session) : Session := { s with events := e :: s.events }

def crash (s : Session) : Session := { s with panicked := true }

def mislabel (s : Session) : Session := { s with panicked := true, mislabelled := true }

def openSession (s : Session) : Option Nat := if s.sessionOpen then s.backend else none

def closeBackend (s : Session) : Session :=
  match s.backend with
  | some conn => s.note (.closed conn)
  | none => s

def resetBackend (s : Session) : Session :=
  { s.closeBackend with
    backend := none, backendAddr := [], backendName := [],
    sessionOpen := false }

def switchTo (addr name pool : GoString) (s : Session) : Session :=
  { (s.note (.dialed s.dialled addr s.db)).closeBackend with
    backend := some s.dialled, backendPool := pool, backendAddr := addr, backendName := name,
    dialled := s.dialled + 1, sessionOpen := false }

end Session

def stmtID (data : List UInt8) : Nat := Binary.littleEndian (data.take 4)

def serverText (s : Session) (conn : Nat) : Command → Option GoString
  | .query text => some text
  | .stmtExecute data =>
    (s.serverStatements.find? fun (c, id, _) => c == conn && id == stmtID data).map (·.2.2)
  | _ => none

def sessionAfter (w : World) (s : Session) (conn : Nat) (command : Command) : Bool :=
  match serverText s conn command with
  | some text => openAfter .mysql s.sessionOpen text w.executed
  | none => s.sessionOpen

/-- Sends a command on the current backend connection and reads the answer. -/
def exchange (w : World) (command : Command) (s : Session) : Option (List UInt8) × Session :=
  match s.backend with
  | none => (none, s.crash)
  | some conn =>
    let s := s.note (.sent s.begun conn command)
    match w.reply with
    | none => (none, s.resetBackend)
    | some response => (some response, { s with sessionOpen := sessionAfter w s conn command })

def writeClient (w : World) (s : Session) : Handled := (if w.client then none else some .client, s)

def relay (w : World) (command : Command) (s : Session) : Handled :=
  match exchange w command s with
  | (none, s) => (some .backend, s)
  | (some _, s) => writeClient w s

def ensureBackendConn (w : World) (addr name pool : GoString) (s : Session) : Handled :=
  if addr = s.backendAddr ∧ s.backend.isSome then (none, s)
  else if w.dial addr then (none, s.switchTo addr name pool)
  else (some (.dial addr), s)

def ensureBackend (cfg : ProxyConfig) (w : World) (db : GoString) (s : Session) : Handled :=
  let shardName := cfg.shardName db
  match cfg.pools shardName with
  | none => (some (.noPool db), s)
  | some targetPool =>
    let s := { s with lastQueryShard := shardName }
    if shardName = s.backendPool ∧ s.backend.isSome then (none, s)
    else ensureBackendConn w targetPool.getPrimary (lit "primary") shardName s

def useStatement (db : GoString) : GoString := lit "USE `" ++ db ++ lit "`"

def handleUse (cfg : ProxyConfig) (w : World) (dbName : GoString) (s : Session) : Handled :=
  match ensureBackend cfg w dbName s with
  | (some e, s) => (some e, s)
  | (none, s) => relay w (.query (useStatement dbName)) { s with db := dbName }

def handleBegin (w : World) (s : Session) : Handled :=
  match exchange w (.query (lit "BEGIN")) s with
  | (none, s) => (some .backend, s)
  | (some _, s) =>
    writeClient w { s with statusInTrans := true, inTransaction := true, begun := s.backend }

def finishTransaction (text : String) (w : World) (s : Session) : Handled :=
  match exchange w (.query (lit text)) s with
  | (none, s) => (some .backend, s)
  | (some _, s) =>
    writeClient w { s with statusInTrans := false, inTransaction := false, begun := none }

def handleCommit : World → Session → Handled := finishTransaction "COMMIT"

def handleRollback : World → Session → Handled := finishTransaction "ROLLBACK"

def statusQuery (cfg : ProxyConfig) (s : Session) : GoString :=
  let backend := if s.lastQueryBackend = [] then lit "none" else s.lastQueryBackend
  let shard := if s.lastQueryShard = [] then cfg.default else s.lastQueryShard
  let query := lit "SELECT 'Backend' AS `Variable_name`, '" ++ backend ++
    lit "' AS `Value` UNION ALL SELECT 'Shard', '" ++ shard ++ lit "'"
  if 0 < s.lastBatchSize then
    query ++ lit " UNION ALL SELECT 'LastBatchSize', '" ++ Strconv.itoa s.lastBatchSize ++ lit "'"
  else query

def handleShowTQDBStatus (cfg : ProxyConfig) (w : World) (s : Session) : Handled :=
  match ensureBackend cfg w [] s with
  | (some e, s) => (some e, s)
  | (none, s) => relay w (.query (statusQuery cfg s)) s

def handleLocalInfile (w : World) (s : Session) : Handled :=
  match w.infile with
  | .clientFails => (some .localInfile, s)
  | .backendFails => (some .localInfile, s.resetBackend)
  | .finished => writeClient w s

def firstByte (response : List UInt8) : Option UInt8 := response[4]?

def answered (name : GoString) (s : Session) : Session :=
  { s with lastQueryBackend := name, lastQueryCacheHit := false }

def executeImmediateWrite (cfg : ProxyConfig) (w : World) (query : GoString) (s : Session) :
    Handled :=
  match cfg.pools s.backendPool with
  | none => (none, s.crash)
  | some pool =>
    match ensureBackendConn w pool.getPrimary (lit "primary") s.backendPool s with
    | (some e, s) => (some e, s)
    | (none, s) =>
      match exchange w (.query query) s with
      | (none, s) => (some .backend, s)
      | (some _, s) => writeClient w (answered (lit "primary") s)

def retried (error : WriteError) : Bool := error == .managerClosed || error == .timeout

def batched (w : World) (s : Session) : Handled :=
  writeClient w { answered (lit "write-batch") s with lastBatchSize := w.enqueue.batchSize }

/-- The write is counted when its result is there, an immediate execution under the same label
again. -/
def handleBatchedWrite (cfg : ProxyConfig) (w : World) (query : GoString) (batchMs : Nat)
    (file : GoString) (arrived : Option Nat) (s : Session) : Handled :=
  let batchKey := (parse query).getBatchKey
  let s := (s.note (.write arrived .manager)).note (.enqueued s.db batchKey query [] batchMs)
  if !Utf8.valid file then (none, s.mislabel)
  else
    match w.enqueue.error with
    | none => batched w s
    | some e => if retried e then executeImmediateWrite cfg w query s else writeClient w s

def hit (name : String) (key : CacheKey) (s : Session) : Session :=
  { s.note (.served s.inTransaction key) with
    lastQueryBackend := lit name, lastQueryCacheHit := true }

/-- The two lookups of a cacheable statement; none where it has to be executed. -/
def serveCached (w : World) (parsed : ParsedQuery) (s : Session) : Option Session :=
  if !parsed.isCacheable then none
  else
    match w.get with
    | some (_, .fresh) => some (hit "cache" (.text parsed.query) s)
    | some (_, .stale) => some (hit "cache (stale)" (.text parsed.query) s)
    | _ =>
      match w.getOrWait with
      | (some _, true) => some (hit "cache" (.text parsed.query) s)
      | _ => none

def selectBackend (w : World) (pool : Pool) (parsed : ParsedQuery) (s : Session) :
    GoString × GoString :=
  if parsed.isCacheable && !s.statusInTrans then (pool.getReplica w.replicas).1
  else (pool.getPrimary, lit "primary")

def cancelInflight (parsed : ParsedQuery) (s : Session) : Session :=
  if parsed.isCacheable then s.note (.cancelled (.text parsed.query)) else s

def storeResult (key : CacheKey) (ttl : Nat) (s : Session) : Session :=
  if 0 < ttlDuration ttl then s.note (.stored s.inTransaction key) else s

def noteWrite (parsed : ParsedQuery) (arrived : Option Nat) (s : Session) : Session :=
  match s.backend with
  | some conn => if parsed.isBatchable then s.note (.write arrived (.backend conn)) else s
  | none => s

/-- The execution of a statement that no other branch has handled. -/
def forwardQuery (cfg : ProxyConfig) (w : World) (parsed : ParsedQuery) (arrived : Option Nat)
    (s : Session) : Handled :=
  match cfg.pools s.backendPool with
  | none => (none, s.crash)
  | some pool =>
    let (addr, name) := selectBackend w pool parsed s
    match ensureBackendConn w addr name s.backendPool s with
    | (some e, s) => (some e, cancelInflight parsed s)
    | (none, s) =>
      match exchange w (.query parsed.query) (noteWrite parsed arrived s) with
      | (none, s) => (some .backend, cancelInflight parsed s)
      | (some response, s) =>
        if firstByte response = some 0xFB then handleLocalInfile w s
        else if !parsed.labelled then (none, s.mislabel)
        else
          let s := answered name s
          writeClient w
            (if parsed.isCacheable then storeResult (.text parsed.query) parsed.ttl s else s)

inductive Kind where
  | use (dbName : GoString)
  | begin
  | commit
  | rollback
  | status
  | other
  deriving DecidableEq

def statementKind (query : GoString) : Kind :=
  let queryUpper := Strings.trimSuffix (Strings.toUpper (Strings.trimSpace query)) (lit ";")
  let parts := Strings.fields query
  if Strings.hasPrefix queryUpper (lit "USE ") && 2 ≤ parts.length then
    .use (Strings.trim (parts.getD 1 []) [96, 59])
  else if queryUpper = lit "BEGIN" ∨ queryUpper = lit "START TRANSACTION" then .begin
  else if queryUpper = lit "COMMIT" then .commit
  else if queryUpper = lit "ROLLBACK" then .rollback
  else if queryUpper = lit "SHOW TQDB STATUS" then .status
  else .other

def routeQualified (cfg : ProxyConfig) (w : World) (parsed : ParsedQuery) (s : Session) : Handled :=
  if parsed.db ≠ [] ∧ parsed.db ≠ s.db then
    match ensureBackend cfg w parsed.db s with
    | (some e, s) => (some e, s)
    | (none, s) => (none, { s with db := parsed.db })
  else (none, s)

/-- Every way through the cache counts a hit or a miss under the file of the statement. -/
def handleOther (cfg : ProxyConfig) (w : World) (parsed : ParsedQuery) (arrived : Option Nat)
    (s : Session) : Handled :=
  if !s.inTransaction && parsed.isWritable && parsed.isBatchable then
    handleBatchedWrite cfg w parsed.query parsed.batchMs parsed.fileLabel arrived s
  else if parsed.isCacheable && !parsed.labelled then (none, s.mislabel)
  else
    match serveCached w parsed s with
    | some s => writeClient w s
    | none => forwardQuery cfg w parsed arrived s

def handleKind (cfg : ProxyConfig) (w : World) (parsed : ParsedQuery) (arrived : Option Nat)
    (s : Session) : Handled :=
  match statementKind parsed.query with
  | .use dbName => handleUse cfg w dbName s
  | .begin => handleBegin w s
  | .commit => handleCommit w s
  | .rollback => handleRollback w s
  | .status => handleShowTQDBStatus cfg w s
  | .other => handleOther cfg w parsed arrived s

def statementParsed (query : GoString) (originalParsed : ParsedQuery) : ParsedQuery :=
  if query = originalParsed.query then originalParsed else parse query

def handleSingleQuery (cfg : ProxyConfig) (w : World) (query : GoString)
    (originalParsed : ParsedQuery) (s : Session) : Handled :=
  let parsed := statementParsed query originalParsed
  match routeQualified cfg w parsed s with
  | (some e, t) => (some e, t)
  | (none, t) => handleKind cfg w parsed s.openSession t

def handlePrepare (w : World) (query : GoString) (s : Session) : Handled :=
  match exchange w (.stmtPrepare query) s with
  | (none, s) => (some .backend, s)
  | (some response, s) =>
    if response.head? = some 0 then
      if response.length < 9 then (none, s.crash)
      else
        let stmtID := Binary.littleEndian ((response.drop 1).take 4)
        let numCols := Binary.littleEndian ((response.drop 5).take 2)
        let numParams := Binary.littleEndian ((response.drop 7).take 2)
        let s := { s with
          preparedStatements := (stmtID, parse query) :: s.preparedStatements
          serverStatements := (s.backend.getD 0, stmtID, query) :: s.serverStatements }
        if (0 < numParams || 0 < numCols) && !w.more then (some .backend, s.resetBackend)
        else writeClient w s
    else writeClient w s

/-- The bytes that are digested for the cache key of a prepared execution. -/
def executeKey (db query : GoString) (data : List UInt8) : CacheKey :=
  .prepared (db ++ query ++ data.drop 4)

def servePrepared (w : World) (parsed : ParsedQuery) (data : List UInt8) (s : Session) :
    Option Session :=
  if parsed.isCacheable && w.get.isSome then
    some (hit "cache" (executeKey s.db parsed.query data) s)
  else none

def executePrepared (w : World) (parsed : ParsedQuery) (data : List UInt8) (s : Session) :
    Handled :=
  match servePrepared w parsed data s with
  | some s => writeClient w s
  | none =>
    match exchange w (.stmtExecute data) (noteWrite parsed s.openSession s) with
    | (none, s) => (some .backend, s)
    | (some response, s) =>
      if firstByte response = some 0xFB then handleLocalInfile w s
      else
        let stored :=
          if parsed.isCacheable && firstByte response != some 0xFF then
            storeResult (executeKey s.db parsed.query data) parsed.ttl s
          else s
        writeClient w (answered s.backendName stored)

def handleBatchedPreparedExecute (w : World) (data : List UInt8) (parsed : ParsedQuery)
    (params : List Value) (s : Session) : Handled :=
  let s := (s.note (.write s.openSession .manager)).note
    (.enqueued s.db parsed.getBatchKey parsed.query params parsed.batchMs)
  if !Utf8.valid parsed.file then (none, s.mislabel)
  else
    match w.enqueue.error with
    | none => batched w s
    | some e =>
      if retried e then
        match exchange w (.stmtExecute data) s with
        | (none, s) => (some .backend, s)
        | (some _, s) => writeClient w (answered s.backendName s)
      else writeClient w s

def handleExecute (w : World) (data : List UInt8) (s : Session) : Handled :=
  if data.length < 4 then (some .malformedExecute, s)
  else
    match s.preparedStatements.find? (·.1 == stmtID data) with
    | none => (some (.unknownStatement (stmtID data)), s)
    | some (_, parsed) =>
      if !s.inTransaction && parsed.isWritable && parsed.isBatchable then
        match decodeStmtParams data parsed.query with
        | .panics => (none, s.crash)
        | .ok params => handleBatchedPreparedExecute w data parsed params s
        | .error _ => executePrepared w parsed data s
      else executePrepared w parsed data s

/-- The command has no answer; a failed write drops the connection. -/
def handleStmtClose (w : World) (data : List UInt8) (s : Session) : Handled :=
  let s :=
    if 4 ≤ data.length then
      { s with preparedStatements := s.preparedStatements.filter (·.1 != stmtID data) }
    else s
  match exchange w (.stmtClose data) s with
  | (none, s) => (some .backend, s)
  | (some _, s) => (none, s)

def handleStmtReset (w : World) (data : List UInt8) (s : Session) : Handled :=
  relay w (.stmtReset data) s

structure Splitter where
  queries : List GoString := []
  current : GoString := []
  inQuote : Bool := false
  quoteChar : Nat := 0
  escaped : Bool := false

def Splitter.cut (p : Splitter) : Splitter :=
  let q := Strings.trimSpace p.current
  { p with queries := if q = [] then p.queries else p.queries ++ [q], current := [] }

def Splitter.write (p : Splitter) (r : Nat) : Splitter :=
  { p with current := p.current ++ Utf8.encodeRune r }

def Splitter.quote (p : Splitter) (r : Nat) : Splitter :=
  if r = 39 ∨ r = 34 ∨ r = 96 then
    if !p.inQuote then { p with inQuote := true, quoteChar := r }
    else if r = p.quoteChar then { p with inQuote := false } else p
  else p

def Splitter.step (p : Splitter) (r : Nat) : Splitter :=
  if p.escaped then { p.write r with escaped := false }
  else if r = 92 then { p.write r with escaped := true }
  else if r = 59 ∧ p.inQuote = false then p.cut
  else (p.quote r).write r

def splitQueries (query : GoString) : List GoString :=
  ((Utf8.runes query).foldl Splitter.step {}).cut.queries

inductive Input where
  | quit
  | initDB (dbName : GoString)
  | fieldList
  | ping
  | query (text : GoString)
  | nextStatement
  | stmtPrepare (query : GoString)
  | stmtExecute (data : List UInt8)
  | stmtClose (data : List UInt8)
  | stmtReset (data : List UInt8)
  | other (cmd : UInt8)
  deriving DecidableEq

/-- The commands but for COM_QUERY; COM_QUIT is only answered. -/
def dispatch (cfg : ProxyConfig) (w : World) (input : Input) (s : Session) : Handled :=
  match input with
  | .quit => (some .quit, s)
  | .initDB dbName => handleUse cfg w dbName s
  | .fieldList | .ping => writeClient w s
  | .stmtPrepare query => handlePrepare w query s
  | .stmtExecute data => handleExecute w data s
  | .stmtClose data => handleStmtClose w data s
  | .stmtReset data => handleStmtReset w data s
  | .other cmd => (some (.unsupported cmd), s)
  | .query _ | .nextStatement => (none, s)

/-- The loop of `handleQuery` ends at the first error. -/
def nextStatement (cfg : ProxyConfig) (w : World) (query : GoString) (rest : List GoString)
    (s : Session) : Session :=
  match handleSingleQuery cfg w query s.original { s with pending := rest } with
  | (some _, s) => { s with pending := [] }
  | (none, s) => s

def startQuery (text : GoString) (s : Session) : Session :=
  let parsed := parse text
  { s with pending := splitQueries parsed.query, original := parsed }

def step (cfg : ProxyConfig) (s : Session) (a : Input × World) : Option Session :=
  if s.panicked then none
  else
    match s.pending with
    | query :: rest =>
      if a.1 = .nextStatement then some (nextStatement cfg a.2 query rest s) else none
    | [] =>
      match a.1 with
      | .nextStatement => none
      | .query text => some (startQuery text s)
      | input => some (dispatch cfg a.2 input s).2

def handleConnection (cfg : ProxyConfig) (w : World) (db : GoString) : Option Session :=
  match cfg.pools cfg.default with
  | none => none
  | some defaultPool =>
    if w.dial defaultPool.getPrimary then
      let s : Session :=
        { backend := some 0, backendPool := cfg.default, backendAddr := defaultPool.getPrimary,
          backendName := lit "primary", db := db, dialled := 1,
          events := [.dialed 0 defaultPool.getPrimary []] }
      some (if db = [] then s else (exchange w (.query (useStatement db)) s).2)
    else none

def replicated : ProxyConfig where
  default := lit "main"
  dbMap := fun _ => []
  pools := fun name => if name = lit "main" then some ⟨lit "p:3306", [lit "r:3306"]⟩ else none

/-- A client with the default database sends some texts, each of one statement. -/
def sending (texts : List String) : List (Input × World) :=
  texts.flatMap fun text => [(.query (lit text), {}), (.nextStatement, {})]

def client : Session where
  backend := some 0
  backendPool := lit "main"
  backendAddr := lit "p:3306"
  backendName := lit "primary"
  db := []
  dialled := 1
  events := [.dialed 0 (lit "p:3306") []]

theorem client_connected : handleConnection replicated {} [] = some client := by rfl

end TQDBProxy.MariaDB
