import TQDBProxy.InsertRewrite

/-! The strategies of `executeBatchedWrites` as programs over a database session, which
answers call number `k` by `db k`. Requests are named by their position in the batch. A
statement outside a transaction commits when it succeeds; a failed statement changes
nothing, a failed commit commits nothing and a rollback undoes the transaction. -/

namespace TQDBProxy.WriteBatch

structure WriteRequest where
  query : GoString
  params : List Value := []
  onBatchComplete : Bool := false
  hasReturning : Bool := false
  deriving DecidableEq

/-- What `executeBatch` hands to `executeBatchedWrites`. -/
structure Batch where
  requests : List WriteRequest
  several : 2 ≤ requests.length

def Batch.first (b : Batch) : WriteRequest :=
  b.requests.head (List.ne_nil_of_length_pos (Nat.lt_of_lt_of_le Nat.two_pos b.several))

def Batch.paramLists (b : Batch) : List (List Value) := b.requests.map (·.params)

structure Manager where
  useCopy : Bool := false
  firstInsertIDIsFirst : Bool := true

inductive Reply where
  | ok (affected lastInsertID returned : Int)
  | error (message : GoString)
  deriving DecidableEq

def Reply.succeeds : Reply → Bool
  | .ok .. => true
  | .error _ => false

inductive Call where
  | begin
  | prepare (query : GoString)
  | copyIn (table : GoString) (columns : List GoString)
  | exec (query : GoString) (args : List Value)
  | txExec (query : GoString) (args : List Value)
  | stmtExec (args : List Value)
  | stmtQueryRow (args : List Value)
  | loadData (query : GoString) (rows : List (List Value))
  | stmtClose
  | commit
  | rollback
  deriving DecidableEq

/-- The requests of a batch of `size` whose writes a call makes. What is executed on the pool is
built from the whole batch, a bulk load has a row for each request, and every other statement is
for the request `i` that the loop is at. -/
def Call.carries (size i : Nat) : Call → List Nat
  | .exec .. => List.range size
  | .loadData _ rows => List.range rows.length
  | .txExec .. => [i]
  | .stmtExec _ => [i]
  | .stmtQueryRow _ => [i]
  | _ => []

structure Session where
  calls : List Call := []
  working : List Nat := []
  committed : List Nat := []
  delivered : List (Nat × WriteResult) := []
  notified : List (Nat × Nat) := []
  loadDataHandlerSeq : Nat := 0
  panicked : Bool := false
  deriving DecidableEq

namespace Session

variable (db : Nat → Reply)

def call (c : Call) (s : Session) : Reply × Session :=
  (db s.calls.length, { s with calls := s.calls ++ [c] })

def txExec (c : Call) (size i : Nat) (s : Session) : Reply × Session :=
  match s.call db c with
  | (.error e, s) => (.error e, s)
  | (.ok affected lastID returned, s) =>
    (.ok affected lastID returned, { s with working := s.working ++ c.carries size i })

def dbExec (c : Call) (size i : Nat) (s : Session) : Reply × Session :=
  match s.call db c with
  | (.error e, s) => (.error e, s)
  | (.ok affected lastID returned, s) =>
    (.ok affected lastID returned, { s with committed := s.committed ++ c.carries size i })

def commit (s : Session) : Reply × Session :=
  match s.call db .commit with
  | (.error e, s) => (.error e, { s with working := [] })
  | (.ok affected lastID returned, s) =>
    (.ok affected lastID returned,
      { s with committed := s.committed ++ s.working, working := [] })

def rollback (s : Session) : Session := { (s.call db .rollback).2 with working := [] }

def close (s : Session) : Session := (s.call db .stmtClose).2

def send (i : Nat) (result : WriteResult) (s : Session) : Session :=
  { s with delivered := s.delivered ++ [(i, result)] }

def notify (req : WriteRequest) (i batchSize : Nat) (s : Session) : Session :=
  if req.onBatchComplete then { s with notified := s.notified ++ [(i, batchSize)] } else s

def sendAll (results : List WriteResult) (s : Session) : Session :=
  { s with delivered := s.delivered ++ results.zipIdx.map fun (result, i) => (i, result) }

def sendError (b : Batch) (message : GoString) (s : Session) : Session :=
  s.sendAll (b.requests.map fun _ => .failed (.database message))

def sendAndNotify (b : Batch) (results : List WriteResult) (s : Session) : Session :=
  { s.sendAll results with
    notified := s.notified ++ (b.requests.zipIdx.filter (·.1.onBatchComplete)).map
      fun (_, i) => (i, b.requests.length) }

def crash (s : Session) : Session := { s with panicked := true }

end Session

def Batch.indices (b : Batch) : List Nat := List.range b.requests.length

def isBatchableDelete (query : GoString) : Option Bool :=
  let q := skipComments query.length query
  if !Strings.hasPrefix (Strings.toUpper q) (lit "DELETE FROM ") then some false
  else
    match Strings.index (Strings.toUpper q) (lit " WHERE ") with
    | none => some false
    | some whereIdx =>
      (Strings.sliceFrom q (whereIdx + 7)).map fun whereClause =>
        (Strings.split whereClause 61).length == 2 && Strings.count whereClause 63 == 1

/-- The combined DELETE, none where a slice or an index is out of range. -/
def batchedDelete (b : Batch) : Option (GoString × List Value) := do
  let firstQuery := b.first.query
  let whereIdx ← Strings.index (Strings.toUpper firstQuery) (lit " WHERE ")
  let whereClause ← Strings.sliceFrom firstQuery (whereIdx + 7)
  let keyCol := Strings.trimSpace ((Strings.split whereClause 61).headD [])
  let baseQuery ← Strings.sliceTo firstQuery whereIdx
  let marks := joinWith [44] (b.requests.map fun _ => [63])
  let allParams ← b.paramLists.mapM List.head?
  some (baseQuery ++ lit " WHERE " ++ keyCol ++ lit " IN (" ++ marks ++ lit ")", allParams)

section Strategies

variable (m : Manager) (db : Nat → Reply)

def executeTrueBatchedDelete (b : Batch) (s : Session) : Session :=
  match batchedDelete b with
  | none => s.crash
  | some (query, allParams) =>
    match s.dbExec db (.exec query allParams) b.requests.length 0 with
    | (.error e, s) => s.sendError b e
    | (.ok affected _ _, s) =>
      s.sendAndNotify b (b.requests.map fun _ =>
        { affectedRows := affected, batchSize := b.requests.length })

def preparedResult (hasReturning : Bool) (batchSize : Nat) : Reply → WriteResult
  | .error e => .failed (.database e)
  | .ok affected lastID returned =>
    if hasReturning then
      { affectedRows := 1, returningValues := [.int returned], batchSize := batchSize }
    else { affectedRows := affected, lastInsertId := lastID, batchSize := batchSize }

def preparedRows (hasReturning : Bool) (batchSize : Nat) :
    List WriteRequest → Nat → Session → List WriteResult × Session
  | [], _, s => ([], s)
  | req :: rest, i, s =>
    let (reply, s) := s.txExec db
      (if hasReturning then .stmtQueryRow req.params else .stmtExec req.params) batchSize i
    let (results, s) := preparedRows hasReturning batchSize rest (i + 1) s
    (preparedResult hasReturning batchSize reply :: results, s)

/-- The end of the transaction, with the statement closed on return. -/
def finishPrepared (b : Batch) (results : List WriteResult) (s : Session) : Session :=
  if results.any (·.error.isSome) then
    ((s.rollback db).sendAll results).close db
  else
    match s.commit db with
    | (.error e, s) => (s.sendError b e).close db
    | (.ok .., s) => (s.sendAndNotify b results).close db

def executePreparedBatch (b : Batch) (s : Session) : Session :=
  match s.call db .begin with
  | (.error e, s) => s.sendError b e
  | (.ok .., s) =>
    match s.call db (.prepare b.first.query) with
    | (.error e, s) => (s.rollback db).sendError b e
    | (.ok .., s) =>
      let rows := preparedRows db b.first.hasReturning b.requests.length b.requests 0 s
      finishPrepared db b rows.1 rows.2

/-- The loop over the requests; every request is answered on its own. -/
def fallbackRows (batchSize : Nat) : List WriteRequest → Nat → Session → Session
  | [], _, s => s
  | req :: rest, i, s =>
    match s.dbExec db (.stmtExec req.params) batchSize i with
    | (.error e, s) => fallbackRows batchSize rest (i + 1) (s.send i (.failed (.database e)))
    | (.ok affected lastID _, s) =>
      fallbackRows batchSize rest (i + 1) ((s.send i
        { affectedRows := affected, lastInsertId := lastID, batchSize := batchSize }).notify req i
          batchSize)

def executePreparedBatchFallback (b : Batch) (s : Session) : Session :=
  match s.call db (.prepare b.first.query) with
  | (.error e, s) => s.sendError b e
  | (.ok .., s) => (fallbackRows db b.requests.length b.requests 0 s).close db

def wrap (i : Int) : Int := Int.bmod i (1 <<< 64)

def normalizeFirstInsertID (rawID : Int) (batchSize : Nat) : Int :=
  if m.firstInsertIDIsFirst then rawID else wrap (rawID - (batchSize - 1 : Nat))

def executeTrueBatchedInsertMultiRow (b : Batch) (s : Session) : Session :=
  match multiRow b.first.query b.paramLists with
  | .fallback => executePreparedBatchFallback db b s
  | .panics => s.crash
  | .statement batchQuery allParams =>
    match s.dbExec db (.exec batchQuery allParams) b.requests.length 0 with
    | (.error e, s) => s.sendError b e
    | (.ok _ rawID _, s) =>
      let firstID := normalizeFirstInsertID m rawID b.requests.length
      s.sendAndNotify b (b.indices.map fun (i : Nat) =>
        { affectedRows := 1, lastInsertId := wrap (firstID + i), batchSize := b.requests.length })

inductive ParsedInsert where
  | panics
  | error (message : GoString)
  | ok (table : GoString) (columns : List GoString)
  deriving DecidableEq

/-- The column list: `tableEnd` is within `remaining` and not after its first parenthesis. -/
def parseColumns (remaining : GoString) (tableEnd : Nat) : ParsedInsert :=
  let tableName := Strings.trimSpace (remaining.take tableEnd)
  match Strings.index remaining (lit "(") with
  | none => .error (lit "missing column list")
  | some openParen =>
    let betweenTableAndParen := Strings.toUpper ((remaining.take openParen).drop tableEnd)
    if Strings.contains betweenTableAndParen (lit "VALUES") then .error (lit "missing column list")
    else
      match Strings.index (remaining.drop openParen) (lit ")") with
      | none => .error (lit "unclosed column list")
      | some closeParen =>
        let columnList := (remaining.take (openParen + closeParen)).drop (openParen + 1)
        .ok tableName ((Strings.split columnList 44).map Strings.trimSpace)

def parseInsertStatement (query : GoString) : ParsedInsert :=
  let q := Strings.trimSpace query
  let upperQ := Strings.toUpper q
  match Strings.index upperQ (lit "INSERT") with
  | none => .error (lit "not an INSERT statement")
  | some insertPos =>
    match Strings.index (upperQ.drop insertPos) (lit "INTO") with
    | none => .error (lit "missing INTO clause")
    | some intoPos =>
      match Strings.sliceFrom q (intoPos + insertPos + 4) with
      | none => .panics
      | some rest =>
        let remaining := Strings.trimSpace rest
        match remaining.findIdx? fun ch => ch == 40 || ch == 32 with
        | none => .error (lit "cannot parse table name")
        | some tableEnd => parseColumns remaining tableEnd

def isSimple : Value → Bool
  | .other _ => false
  | _ => true

def allParamsAreSimple (requests : List WriteRequest) : Bool :=
  requests.all fun req => req.params.all isSimple

def copyRows (batchSize : Nat) : List WriteRequest → Nat → Session → Option GoString × Session
  | [], _, s => (none, s)
  | req :: rest, i, s =>
    match s.txExec db (.stmtExec req.params) batchSize i with
    | (.error e, s) => (some e, s)
    | (.ok .., s) => copyRows batchSize rest (i + 1) s

/-- COPY and LOAD DATA report one row and no id to every request. -/
def bulkResults (b : Batch) : List WriteResult :=
  b.requests.map fun _ => { affectedRows := 1, batchSize := b.requests.length }

def finishCopy (b : Batch) (s : Session) : Session :=
  match s.call db (.stmtExec []) with
  | (.error e, s) => ((s.close db).rollback db).sendError b e
  | (.ok .., s) =>
    match s.call db .stmtClose with
    | (.error e, s) => (s.rollback db).sendError b e
    | (.ok .., s) =>
      match s.commit db with
      | (.error e, s) => s.sendError b e
      | (.ok .., s) => s.sendAndNotify b (bulkResults b)

def executeCopyBatchedInsert (b : Batch) (s : Session) : Session :=
  match parseInsertStatement b.first.query with
  | .panics => s.crash
  | .error _ => executeTrueBatchedInsertMultiRow m db b s
  | .ok tableName columns =>
    match s.call db .begin with
    | (.error e, s) => s.sendError b e
    | (.ok .., s) =>
      match s.call db (.copyIn tableName columns) with
      | (.error _, s) => executeTrueBatchedInsertMultiRow m db b (s.rollback db)
      | (.ok .., s) =>
        match copyRows db b.requests.length b.requests 0 s with
        | (some e, s) => ((s.close db).rollback db).sendError b e
        | (none, s) => finishCopy db b s

def loadQuery (handlerSeq : Nat) (tableName : GoString) (columns : List GoString) : GoString :=
  lit "LOAD DATA LOCAL INFILE 'Reader::writebatch_" ++ Strconv.itoa handlerSeq ++
    lit "' INTO TABLE `" ++ tableName ++ lit "` (" ++
    joinWith (lit ", ") (columns.map fun col => lit "`" ++ col ++ lit "`") ++ lit ")"

def executeLoadDataInfileBatchedInsert (b : Batch) (s : Session) : Session :=
  match parseInsertStatement b.first.query with
  | .panics => s.crash
  | .error _ => executeTrueBatchedInsertMultiRow m db b s
  | .ok tableName columns =>
    let s := { s with loadDataHandlerSeq := s.loadDataHandlerSeq + 1 }
    match s.call db .begin with
    | (.error e, s) => s.sendError b e
    | (.ok .., s) =>
      match s.txExec db (.loadData (loadQuery s.loadDataHandlerSeq tableName columns) b.paramLists)
          b.requests.length 0 with
      | (.error _, s) => executeTrueBatchedInsertMultiRow m db b (s.rollback db)
      | (.ok .., s) =>
        match s.commit db with
        | (.error e, s) => s.sendError b e
        | (.ok .., s) => s.sendAndNotify b (bulkResults b)

def executeTrueBatchedInsert (b : Batch) (s : Session) : Session :=
  if m.useCopy && b.first.params.length != 0 && allParamsAreSimple b.requests then
    if containsPostgresPlaceholder b.first.query then executeCopyBatchedInsert m db b s
    else executeLoadDataInfileBatchedInsert m db b s
  else executeTrueBatchedInsertMultiRow m db b s

def transactionRows (batchSize : Nat) :
    List WriteRequest → Nat → Session → Except GoString (List WriteResult) × Session
  | [], _, s => (.ok [], s)
  | req :: rest, i, s =>
    match s.txExec db (.txExec req.query req.params) batchSize i with
    | (.error e, s) => (.error e, s)
    | (.ok affected lastID _, s) =>
      match transactionRows batchSize rest (i + 1) s with
      | (.error e, s) => (.error e, s)
      | (.ok results, s) =>
        (.ok ({ affectedRows := affected, lastInsertId := lastID, batchSize := batchSize } ::
          results), s)

def executeTransactionBatch (b : Batch) (s : Session) : Session :=
  match s.call db .begin with
  | (.error e, s) => s.sendError b e
  | (.ok .., s) =>
    match transactionRows db b.requests.length b.requests 0 s with
    | (.error e, s) => (s.rollback db).sendError b e
    | (.ok results, s) =>
      match s.commit db with
      | (.error e, s) => s.sendError b e
      | (.ok .., s) => s.sendAndNotify b results

def allSame (b : Batch) : Bool := b.requests.all (·.query == b.first.query)

def executeBatchedWrites (b : Batch) (s : Session) : Session :=
  if allSame b then
    if !b.first.hasReturning && isBatchableInsert b.first.query then
      executeTrueBatchedInsert m db b s
    else
      match isBatchableDelete b.first.query with
      | none => s.crash
      | some true => executeTrueBatchedDelete db b s
      | some false => executePreparedBatch db b s
  else executeTransactionBatch db b s

end Strategies

end TQDBProxy.WriteBatch
