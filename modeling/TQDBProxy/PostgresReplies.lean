import TQDBProxy.PostgresRecovery

/-! What the PostgreSQL proxy writes to its client for each message. A reply is kept as
the fields its bytes are built from; what is cached is a list of replies, and what a
lookup returns are their bytes. -/

namespace TQDBProxy.Postgres

open TQDBProxy.Parser

inductive Format where
  | text
  | binary
  deriving DecidableEq

structure Column where
  name : GoString
  typeOid : Nat
  typeSize : Nat
  format : Format
  deriving DecidableEq

structure Field where
  format : Format
  value : Option GoString
  deriving DecidableEq

/-- The messages of the proxy, and bytes that another protocol has left in the cache. -/
inductive Reply where
  | parseComplete
  | bindComplete
  | closeComplete
  | noData
  | parameterDescription (numParams : Nat)
  | rowDescription (columns : List Column)
  | dataRow (fields : List Field)
  | commandComplete (tag : GoString)
  | errorResponse (message : GoString)
  | readyForQuery
  | foreign (bytes : List UInt8)
  deriving DecidableEq

/-! ### The bytes of a reply -/

def putUint16 (n : Nat) : List UInt8 := [UInt8.ofNat (n / 256), UInt8.ofNat n]

def putUint32 (n : Nat) : List UInt8 := putUint16 (n / 65536) ++ putUint16 n

def encodeMessage (msgType : UInt8) (payload : List UInt8) : List UInt8 :=
  msgType :: putUint32 (payload.length + 4) ++ payload

def Format.code : Format → Nat
  | .text => 0
  | .binary => 1

/-- The table and the position of a column are not known, nor is its modifier. -/
def Column.encode (c : Column) : List UInt8 :=
  c.name ++ [0] ++ [0, 0, 0, 0] ++ [0, 0] ++ putUint32 c.typeOid ++ putUint16 c.typeSize ++
    [255, 255, 255, 255] ++ putUint16 c.format.code

def Field.encode (f : Field) : List UInt8 :=
  match f.value with
  | none => [255, 255, 255, 255]
  | some value => putUint32 value.length ++ value

def describedSize (numParams : Nat) : Int := Int.bmod (2 + 4 * numParams : Nat) (1 <<< 64)

/-- A slice of this size is negative or beyond the address space. -/
def oversized (numParams : Nat) : Bool :=
  describedSize numParams < 0 || 281474976710656 < describedSize numParams

def Reply.encode : Reply → List UInt8
  | .parseComplete => encodeMessage 49 []
  | .bindComplete => encodeMessage 50 []
  | .closeComplete => encodeMessage 51 []
  | .noData => encodeMessage 110 []
  | .parameterDescription numParams =>
    encodeMessage 116
      (putUint16 numParams ++ List.replicate ((describedSize numParams).toNat - 2) 0)
  | .rowDescription columns =>
    encodeMessage 84 (putUint16 columns.length ++ columns.flatMap Column.encode)
  | .dataRow fields => encodeMessage 68 (putUint16 fields.length ++ fields.flatMap Field.encode)
  | .commandComplete tag => encodeMessage 67 (tag ++ [0])
  | .errorResponse message =>
    encodeMessage 69 ([83] ++ lit "ERROR" ++ [0] ++ [67] ++ lit "42000" ++ [0] ++ [77] ++ message ++
      [0, 0])
  | .readyForQuery => encodeMessage 90 [73]
  | .foreign bytes => bytes

def encodeAll (replies : List Reply) : List UInt8 := replies.flatMap Reply.encode

/-! ### Results -/

/-- The rows of a query with their fields as they are printed, up to the error that ended
the iteration, if there was one; `further` results of the same query are not read. -/
structure Rows where
  columns : List GoString := []
  rows : List (List (Option GoString)) := []
  failure : Option GoString := none
  further : Bool := false
  square : ∀ row ∈ rows, row.length = columns.length := by decide

structure Answer where
  world : World := {}
  rows : Rows := {}
  printFloat : UInt64 → GoString := fun _ => []

def printInt (i : Int) : GoString :=
  if i < 0 then 45 :: Strconv.itoa i.natAbs else Strconv.itoa i.natAbs

/-- A value as `%v` prints it. -/
def printValue (printFloat : UInt64 → GoString) : Value → GoString
  | .null => lit "<nil>"
  | .bool b => if b then lit "true" else lit "false"
  | .int i => printInt i
  | .uint n => Strconv.itoa n
  | .float bits => printFloat bits
  | .string s => s
  | .bytes b => [91] ++ [32].intercalate (b.map fun c => Strconv.itoa c.toNat) ++ [93]
  | .other rendered => rendered

/-- `strconv.ParseInt` with base 10 and 32 bits. -/
def parseInt32 (s : GoString) : Option Int :=
  let negative := s.head? = some 45
  let digits := if negative || s.head? = some 43 then s.tail else s
  if digits.isEmpty || !digits.all Parser.digit then none
  else
    let i : Int := if negative then -(Strconv.digitsValue digits) else Strconv.digitsValue digits
    if -(1 <<< 31) ≤ i ∧ i < 1 <<< 31 then some i else none

/-- The four bytes in which an extended query gets the value of a batched write. -/
def binaryValue (printFloat : UInt64 → GoString) (v : Value) : List UInt8 :=
  let i : Int :=
    match v with
    | .int i => i
    | v => (parseInt32 (printValue printFloat v)).getD 0
  putUint32 (i % (1 <<< 32)).toNat

def textColumn (name : GoString) : Column := ⟨name, 25, 65535, .text⟩

def rowReplies (done : String) (r : Rows) : List Reply :=
  if r.columns = [] then [.commandComplete (lit done)]
  else
    .rowDescription (r.columns.map textColumn) ::
      r.rows.map (fun row => .dataRow (row.map (⟨.text, ·⟩))) ++
      [.commandComplete (lit "SELECT " ++ Strconv.itoa r.rows.length)]

def affectedReply (result : WriteResult) : Reply :=
  .commandComplete (lit "INSERT 0 " ++ printInt result.affectedRows)

def batchReplies (a : Answer) : List Reply :=
  if a.world.enqueue.returningValues = [] then [affectedReply a.world.enqueue]
  else
    [.rowDescription [textColumn (lit "id")],
     .dataRow
       (a.world.enqueue.returningValues.map fun v => ⟨.text, some (printValue a.printFloat v)⟩),
     .commandComplete (lit "INSERT 0 1")]

/-- The answer to a batched extended query: the first value alone, without a description. -/
def batchedRow (a : Answer) : List Reply :=
  match a.world.enqueue.returningValues with
  | [] => [affectedReply a.world.enqueue]
  | v :: _ =>
    [.dataRow [⟨.binary, some (binaryValue a.printFloat v)⟩], .commandComplete (lit "INSERT 0 1")]

/-! ### Handlers -/

/-- What a message is answered with, the key under which the answer is cached, and
whether the proxy panics on it. -/
structure Outcome where
  replies : List Reply
  stores : Option CacheKey := none
  panics : Bool := false

def Outcome.crash : Outcome where
  replies := []
  panics := true

/-- Counting a statement under a label that is not UTF-8 makes the proxy panic. -/
def counting (parsed : ParsedQuery) (o : Outcome) : Outcome := if parsed.labelled then o else .crash

abbrev Store := CacheKey → Option (List Reply)

def statusRow (name value : GoString) : Reply := .dataRow [⟨.text, some name⟩, ⟨.text, some value⟩]

def handleShowTQDBStatus (s : Session) : List Reply :=
  let backend := if s.lastBackend = [] then lit "none" else s.lastBackend
  let rows := [statusRow (lit "Shard") s.shard, statusRow (lit "Backend") backend] ++
    if 0 < s.lastBatchSize then [statusRow (lit "LastBatchSize") (Strconv.itoa s.lastBatchSize)]
      else []
  .rowDescription [textColumn (lit "variable_name"), textColumn (lit "value")] :: rows ++
    [.commandComplete (lit "SELECT " ++ Strconv.itoa rows.length)] ++ [.readyForQuery]

def keptKey (parsed : ParsedQuery) (key : Option CacheKey) : Option CacheKey :=
  if 0 < ttlDuration parsed.ttl then key else none

def batched (parsed : ParsedQuery) (s : Session) : Bool :=
  !s.inTransaction && parsed.isWritable && parsed.isBatchable

def textOutcome (a : Answer) (store : Store) (parsed : ParsedQuery) (s : Session) : Outcome :=
  if parsed.isCacheable && !parsed.labelled then .crash
  else if (serveCached a.world parsed s).isSome then
    { replies := (store (.text parsed.query)).getD [] }
  else if batched parsed s then
    counting parsed (match a.world.enqueue.error with
      | some e => { replies := [.errorResponse (errorText e), .readyForQuery] }
      | none => { replies := batchReplies a ++ [.readyForQuery] })
  else
    match a.world.failure with
    | some e => { replies := [.errorResponse e, .readyForQuery] }
    | none =>
      counting parsed
        { replies := rowReplies "OK" a.rows ++ [.readyForQuery]
          stores := keptKey parsed (textKey parsed) }

def queryOutcome (a : Answer) (store : Store) (payload : List UInt8) (s : Session) : Outcome :=
  let query := queryText payload
  if asksStatus query then { replies := handleShowTQDBStatus s }
  else textOutcome a store (parse query) (trackTransaction query s)

/-- The highest number of a placeholder; a number out of range is passed over. -/
def countPostgresParams : GoString → Nat
  | [] => 0
  | b :: rest =>
    let digits := rest.takeWhile Parser.digit
    let here :=
      if b = 36 ∧ digits ≠ [] ∧
        Strconv.digitsValue digits < 1 <<< 63 then Strconv.digitsValue digits else 0
    max here (countPostgresParams rest)

/-- The name after RETURNING, found in the upper-case text and cut from the text as it is. -/
def returningColumn (query : GoString) (index : Nat) : Option GoString :=
  (Strings.sliceFrom query (index + 11)).map fun returningClause =>
    (Strings.trimSpace returningClause).takeWhile fun b => b != 32 && b != 44 && b != 59

/-- The description of a statement. The proxy panics where the size of the parameters is
out of range or the name lies behind the end of the text. -/
def describeStatement (query : GoString) : Outcome :=
  let numParams := countPostgresParams query
  if oversized numParams then { replies := [], panics := true }
  else
    match Strings.index (Strings.toUpper query) (lit " RETURNING ") with
    | none => { replies := [.parameterDescription numParams, .noData] }
    | some index =>
      match returningColumn query index with
      | none => { replies := [.parameterDescription numParams], panics := true }
      | some colName =>
        { replies := [.parameterDescription numParams, .rowDescription [⟨colName, 23, 4, .text⟩]] }

def describeOutcome (payload : List UInt8) (s : Session) : Outcome :=
  match handleDescribe payload s with
  | some e => { replies := [.errorResponse e] }
  | none =>
    if payload.head? = some 83 then
      let name := ((takeName payload.tail).map (·.1)).getD []
      describeStatement ((lookup name s.preparedStatements).getD [])
    else { replies := [.noData] }

def portalOutcome (a : Answer) (store : Store) (parsed : ParsedQuery)
    (params : List (Option GoString)) (s : Session) : Outcome :=
  let key := executeKey s.database parsed params
  if key.isSome && !parsed.labelled then .crash
  else if (servePrepared a.world key s).isSome then { replies := (key.bind store).getD [] }
  else if batched parsed s then
    counting parsed (match a.world.enqueue.error with
      | some e => { replies := [.errorResponse (errorText e)] }
      | none => { replies := batchedRow a })
  else
    match a.world.failure with
    | some e => { replies := [.errorResponse e] }
    | none =>
      counting parsed
        { replies := rowReplies "INSERT 0 1" a.rows, stores := keptKey parsed key }

def executeOutcome (a : Answer) (store : Store) (payload : List UInt8) (s : Session) : Outcome :=
  match takeName payload with
  | none =>
    { replies := [.errorResponse (lit "malformed Execute message: no portal name terminator")] }
  | some (portalName, _) =>
    match lookup (portalStatement s portalName) s.preparedStatements with
    | none =>
      {
        replies :=
          [.errorResponse
            (lit "no prepared statement for portal: " ++ portalName ++ lit " (statement: " ++
          portalStatement s portalName ++ lit ")")] }
    | some query => portalOutcome a store (parse query) (portalParams s portalName) s

def completing (handled : Handled) (complete : Reply) : Outcome :=
  match handled.1 with
  | some e => { replies := [.errorResponse e, .readyForQuery] }
  | none => { replies := [complete] }

def outcome (a : Answer) (store : Store) (s : Session) : Message → Outcome
  | .query payload => queryOutcome a store payload s
  | .parse payload => completing (handleParse payload s) .parseComplete
  | .bind payload => completing (handleBind payload s) .bindComplete
  | .describe payload => describeOutcome payload s
  | .execute payload => executeOutcome a store payload s
  | .close _ => { replies := [.closeComplete] }
  | .sync => { replies := [.readyForQuery] }
  | .terminate => { replies := [] }
  | .other _ => { replies := [.readyForQuery] }

/-! ### Agreement with the handlers of the session -/

variable {w : World} {a : Answer} {store : Store} {s : Session} {payload : List UInt8}
  {parsed : ParsedQuery}

/-- What is stored is the answer of an execution that succeeds and is counted. -/
structure Keeping (w : World) (parsed : ParsedQuery) (s : Session) (key : Option CacheKey)
    (k : CacheKey) : Prop where
  labelled : parsed.labelled = true
  direct : batched parsed s = false
  succeeds : w.failure = none
  kept : keptKey parsed key = some k

theorem counting_stores {o : Outcome} {k : CacheKey}
    (stores : (counting parsed o).stores = some k) :
    parsed.labelled = true ∧ o.stores = some k := by
  unfold counting at stores
  split at stores
  · exact ⟨‹_›, stores⟩
  · cases stores

theorem counting_keeps {o : Outcome} {k : CacheKey} (none : o.stores = none) :
    (counting parsed o).stores ≠ some k := by
  intro stores
  rw [(counting_stores stores).2] at none
  cases none

theorem textOutcome_kept {k : CacheKey} (stores : (textOutcome a store parsed s).stores = some k) :
    serveCached a.world parsed s = none ∧ Keeping a.world parsed s (textKey parsed) k := by
  unfold textOutcome at stores
  split at stores
  · cases stores
  · split at stores
    · cases stores
    · rename_i unserved
      split at stores
      · exact absurd stores (counting_keeps (by split <;> rfl))
      · rename_i direct
        split at stores
        · cases stores
        · rename_i succeeds
          obtain ⟨labelled, kept⟩ := counting_stores stores
          dsimp only at kept
          exact ⟨by simpa using unserved, labelled, by simpa using direct, succeeds, kept⟩

theorem portalOutcome_kept {params : List (Option GoString)} {k : CacheKey}
    (stores : (portalOutcome a store parsed params s).stores = some k) :
    servePrepared a.world (executeKey s.database parsed params) s = none ∧
      Keeping a.world parsed s (executeKey s.database parsed params) k := by
  unfold portalOutcome at stores
  dsimp only at stores
  split at stores
  · cases stores
  · split at stores
    · cases stores
    · rename_i unserved
      split at stores
      · exact absurd stores (counting_keeps (by split <;> rfl))
      · rename_i direct
        split at stores
        · cases stores
        · rename_i succeeds
          obtain ⟨labelled, kept⟩ := counting_stores stores
          dsimp only at kept
          exact ⟨by simpa using unserved, labelled, by simpa using direct, succeeds, kept⟩

theorem executeOutcome_kept {k : CacheKey}
    (stores : (executeOutcome a store payload s).stores = some k) :
    ∃ parsed params, executeOutcome a store payload s = portalOutcome a store parsed params s ∧
      handleExecute a.world payload s = executePortal a.world parsed params s := by
  unfold executeOutcome at stores ⊢
  unfold handleExecute
  cases named : takeName payload with
  | none => simp [named] at stores
  | some found =>
    rw [named] at stores
    dsimp only at stores ⊢
    cases prepared : lookup (portalStatement s found.1) s.preparedStatements with
    | none => simp [prepared] at stores
    | some query => exact ⟨parse query, portalParams s found.1, rfl, rfl⟩

def Message.runs : Message → Bool
  | .query _ | .execute _ => true
  | _ => false

theorem describeOutcome_rule {P : Outcome → Prop}
    (refused : ∀ e, P { replies := [.errorResponse e] }) (portal : P { replies := [.noData] })
    (oversize : P { replies := [], panics := true })
    (rowless : ∀ n, P { replies := [.parameterDescription n, .noData] })
    (beyond : ∀ n, P { replies := [.parameterDescription n], panics := true })
    (named : ∀ n column, P { replies := [.parameterDescription n, .rowDescription [column]] }) :
    P (describeOutcome payload s) := by
  unfold describeOutcome describeStatement
  dsimp only
  split
  · exact refused _
  · split
    · split
      · exact oversize
      · split
        · exact rowless _
        · split
          · exact beyond _
          · exact named _ _
    · exact portal

theorem describeOutcome_stores : (describeOutcome payload s).stores = none :=
  describeOutcome_rule (P := fun o => o.stores = none) (fun _ => rfl) rfl rfl (fun _ => rfl)
    (fun _ => rfl)
    fun _ _ => rfl

theorem outcome_stores_none {message : Message} (answers : message.runs = false) :
    (outcome a store s message).stores = none := by
  cases message with
  | query | execute => cases answers
  | parse payload | bind payload =>
    simp only [outcome, completing]
    split <;> rfl
  | describe payload => exact describeOutcome_stores
  | _ => rfl

end TQDBProxy.Postgres
