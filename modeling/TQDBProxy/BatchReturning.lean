import TQDBProxy.BatchAffected

/-! The value that a RETURNING clause gives for a request. Only the prepared strategy asks
for it; a request that is alone in its batch, a batch of several texts and a combined
DELETE are executed without reading rows. -/

namespace TQDBProxy.WriteBatch

def hasReturningClause (query : GoString) : Bool :=
  Strings.contains (Strings.toUpper query) (lit " RETURNING ")

def executeWrite (db : Nat → Reply) (query : GoString) (params : List Value) (s : Session) :
    WriteResult × Session :=
  match s.dbExec db (.exec query params) 1 0 with
  | (.error e, s) => (.failed (.database e), s)
  | (.ok affected lastID _, s) =>
    ({ affectedRows := affected, lastInsertId := lastID, batchSize := 1 }, s)

def executeSingle (db : Nat → Reply) (req : WriteRequest) (s : Session) : Session :=
  let (result, s) := executeWrite db req.query req.params s
  s.send 0 result

def executeBatch (m : Manager) (db : Nat → Reply) (requests : List WriteRequest) (s : Session) :
    Session :=
  match requests with
  | [] => s
  | [req] => executeSingle db req s
  | first :: second :: rest =>
    executeBatchedWrites m db ⟨first :: second :: rest, Nat.le_add_left 2 rest.length⟩ s

/-! ### The execution of a request -/

def Call.executes : Call → Bool
  | .exec .. => true
  | .txExec .. => true
  | .stmtExec _ => true
  | .stmtQueryRow _ => true
  | _ => false

def Call.args : Call → List Value
  | .exec _ args => args
  | .txExec _ args => args
  | .stmtExec args => args
  | .stmtQueryRow args => args
  | _ => []

def execution (calls : List Call) (i : Nat) : Option (Call × Nat) :=
  (calls.zipIdx.filter (·.1.executes))[i]?

/-- The result of request `i` carries the value that its own execution was answered with. -/
def CarriesOwn (db : Nat → Reply) (t : Session) (i : Nat) (req : WriteRequest) (r : WriteResult) :
    Prop :=
  ∃ call k affected lastID value, execution t.calls i = some (call, k) ∧ call.args = req.params ∧
    db k = .ok affected lastID value ∧ r.returningValues = [.int value]

variable {m : Manager} {db : Nat → Reply} {b : Batch} {s t u : Session} {calls more : List Call}
  {req : WriteRequest}
  {r : WriteResult} {i : Nat} {results : List WriteResult}

theorem not_carries (empty : r.returningValues = []) : ¬ CarriesOwn db t i req r := by
  intro carried
  obtain ⟨_, _, _, _, _, _, _, _, values⟩ := carried
  rw [empty] at values
  cases values

theorem preparedCall_args (hasReturning : Bool) (req : WriteRequest) :
    (preparedCall hasReturning req).args = req.params := by
  cases hasReturning <;> rfl

theorem preparedCall_executes (hasReturning : Bool) (req : WriteRequest) :
    (preparedCall hasReturning req).executes = true := by
  cases hasReturning <;> rfl

theorem execution_prepared {hasReturning : Bool} {query : GoString} {requests : List WriteRequest}
    (at_i : requests[i]? = some req) :
    execution ([.begin, .prepare query] ++ requests.map (preparedCall hasReturning) ++ more) i =
      some (preparedCall hasReturning req, 2 + i) := by
  have front : (([.begin, .prepare query] : List Call).zipIdx).filter (·.1.executes) = [] := rfl
  have rows : ((requests.map (preparedCall hasReturning)).zipIdx 2).filter (·.1.executes) =
      (requests.map (preparedCall hasReturning)).zipIdx 2 := by
    rw [List.filter_eq_self]
    intro p mem
    have inside := List.mem_map_of_mem (f := Prod.fst) mem
    rw [List.zipIdx_map_fst] at inside
    obtain ⟨req', _, same⟩ := List.mem_map.mp inside
    rw [← same]
    exact preparedCall_executes hasReturning req'
  have found : ((requests.map (preparedCall hasReturning)).zipIdx 2)[i]? =
      some (preparedCall hasReturning req, 2 + i) := by
    rw [List.getElem?_zipIdx, List.getElem?_map, at_i]
    rfl
  obtain ⟨bound, _⟩ := List.getElem?_eq_some_iff.mp found
  rw [execution, List.append_assoc, List.zipIdx_append, List.filter_append, front, List.nil_append,
    List.zipIdx_append, List.filter_append]
  refine Eq.trans ?_ found
  have two : 0 + ([.begin, .prepare query] : List Call).length = 2 := rfl
  rw [two, rows, List.getElem?_append_left bound]

theorem mem_sendAndNotify (silent : Silent s) :
    (i, r) ∈ (s.sendAndNotify b results).delivered ↔ results[i]? = some r := mem_sendAll silent

theorem sendError_refuses {e : GoString} (silent : Silent s)
    (sent : (i, r) ∈ (s.sendError b e).delivered) :
    r.error ≠ none := by
  obtain ⟨_, _, rfl⟩ := List.mem_map.mp (List.mem_of_getElem? ((mem_sendAll silent).mp sent))
  exact fun none => by cases none

theorem carries_ownResults {results : List WriteResult} {n : Nat}
    (own : results = ownResults db true n 2) (sent : results[i]? = some r) (fine : r.error = none)
    (at_i : b.requests[i]? = some req)
    (made : t.calls = [.begin, .prepare b.first.query] ++ b.requests.map (preparedCall true) ++
      more) :
    CarriesOwn db t i req r := by
  rw [own, ownResults, List.getElem?_map] at sent
  obtain ⟨k, position, same⟩ := Option.map_eq_some_iff.mp sent
  obtain ⟨bound, place⟩ := List.getElem?_eq_some_iff.mp position
  rw [List.getElem_range'] at place
  have index : k = 2 + i := by omega
  subst index
  cases reply : db (2 + i) with
  | error e =>
    rw [← same, reply] at fine
    cases fine
  | ok affected lastID value =>
    refine ⟨_, _, affected, lastID, value, ?_, preparedCall_args true req, reply, ?_⟩
    · rw [made]
      exact execution_prepared at_i
    · rw [← same, reply]
      rfl

theorem closed_calls {front : List Call} {last : Call} (moved : Moved {} u (front ++ [last])) :
    u.calls ++ [.stmtClose] = front ++ [last, .stmtClose] := by
  rw [moved.calls, List.nil_append, List.append_assoc]
  rfl

theorem carries_prepared (returning : b.first.hasReturning = true)
    (at_i : b.requests[i]? = some req) (sent : (i, r) ∈ (executePreparedBatch db b {}).delivered)
    (fine : r.error = none) :
    CarriesOwn db (executePreparedBatch db b {}) i req r := by
  have silent : Silent {} := ⟨rfl, rfl⟩
  cases prepared_exit db b {} with
  | refused e u calls moved ended =>
    rw [ended] at sent
    exact absurd fine (sendError_refuses (silent.moved moved) sent)
  | uncommitted e u calls moved ended =>
    rw [ended] at sent
    exact absurd fine (sendError_refuses (b := b) (e := e) (silent.moved moved) sent)
  | rolledBack u failed moved ended =>
    rw [returning] at moved ended
    rw [ended] at sent ⊢
    exact carries_ownResults rfl ((mem_sendAll (silent.moved moved)).mp sent) fine at_i
      (closed_calls (u := u) moved)
  | committed u none_failed moved ended =>
    rw [returning] at moved ended
    rw [ended] at sent ⊢
    exact carries_ownResults rfl ((mem_sendAndNotify (b := b) (silent.moved moved)).mp sent)
      fine at_i
      (closed_calls (u := u) moved)

/-! ### The other ways -/

theorem single_returns_nothing (sent : (i, r) ∈ (executeSingle db req {}).delivered) :
    r.returningValues = [] := by
  unfold executeSingle executeWrite at sent
  split at sent
  rename_i result next made
  split at made
  all_goals
    rename_i answer
    cases made
    rw [Session.send, (Moved.dbExec answer).delivered] at sent
    cases List.mem_singleton.mp sent
    rfl

theorem delete_returns_nothing (fine : r.error = none)
    (sent : (i, r) ∈ (executeTrueBatchedDelete db b {}).delivered) :
    r.returningValues = [] := by
  have silent : Silent {} := ⟨rfl, rfl⟩
  cases delete_exit db b {} with
  | panics built ended =>
    rw [ended] at sent
    cases sent
  | refused text args e u built moved _ ended =>
    rw [ended] at sent
    exact absurd fine (sendError_refuses (silent.moved moved) sent)
  | accepted text args affected lastID returned u built moved _ ended =>
    rw [ended] at sent
    obtain ⟨_, _, rfl⟩ :=
      List.mem_map.mp (List.mem_of_getElem? ((mem_sendAndNotify (silent.moved moved)).mp sent))
    rfl

theorem transaction_returns_nothing (fine : r.error = none)
    (sent : (i, r) ∈ (executeTransactionBatch db b {}).delivered) : r.returningValues = [] := by
  have silent : Silent {} := ⟨rfl, rfl⟩
  obtain ⟨e, u, calls, moved, ended⟩ | ⟨u, calls, results, moved, count, plain, ended⟩ :=
    transaction_exit db b {}
  · rw [ended] at sent
    exact absurd fine (sendError_refuses (silent.moved moved) sent)
  · rw [ended] at sent
    exact plain.silent r (List.mem_of_getElem? ((mem_sendAndNotify (silent.moved moved)).mp sent))

theorem first_mem (b : Batch) : b.first ∈ b.requests := List.head_mem _

theorem allSame_iff (b : Batch) (mem : req ∈ b.requests) :
    allSame b = true ↔ ∀ other ∈ b.requests, other.query = req.query := by
  rw [allSame, List.all_eq_true]
  simp only [beq_iff_eq]
  constructor
  · intro same other mem'
    rw [same other mem', same req mem]
  · intro same other mem'
    rw [same other mem', same b.first (first_mem b)]

theorem batch_returns_iff {m : Manager}
    (enqueued : ∀ req ∈ b.requests, req.hasReturning = hasReturningClause req.query)
    (at_i : b.requests[i]? = some req) (returning : hasReturningClause req.query = true)
    (sent : (i, r) ∈ (executeBatchedWrites m db b {}).delivered) (fine : r.error = none) :
    CarriesOwn db (executeBatchedWrites m db b {}) i req r ↔
      (∀ other ∈ b.requests, other.query = req.query) ∧
        isBatchableDelete req.query = some false := by
  have uniform := allSame_iff b (List.mem_of_getElem? at_i)
  cases same : allSame b with
  | false =>
    have mixed : executeBatchedWrites m db b {} = executeTransactionBatch db b {} := by
      rw [executeBatchedWrites, same]
      rfl
    rw [mixed] at sent ⊢
    rw [← uniform, same]
    exact iff_of_false (not_carries (transaction_returns_nothing fine sent)) fun both => by
      cases both.1
  | true =>
    have text := uniform.mp same b.first (first_mem b)
    have flag : b.first.hasReturning = true := by rw [enqueued _ (first_mem b), text, returning]
    have other : insertsCombined b = false := by rw [insertsCombined, flag]; rfl
    rw [executeBatchedWrites_other same other, text] at sent ⊢
    rw [← uniform, same, and_iff_right rfl]
    cases deletes : isBatchableDelete req.query with
    | none =>
      rw [deletes] at sent
      cases sent
    | some combined =>
      rw [deletes] at sent
      cases combined with
      | true =>
        exact iff_of_false (not_carries (delete_returns_nothing fine sent)) fun no => by cases no
      | false => exact iff_of_true (carries_prepared flag at_i sent fine) rfl

/-- A request with a RETURNING clause gets the value of its own execution exactly when it
shares a batch with others of the same text that is not a DELETE by one key. -/
theorem returning_value_iff (m : Manager) (db : Nat → Reply) (requests : List WriteRequest)
    (enqueued : ∀ req ∈ requests, req.hasReturning = hasReturningClause req.query) (i : Nat)
    (req : WriteRequest) (at_i : requests[i]? = some req)
    (returning : hasReturningClause req.query = true) (r : WriteResult)
    (sent : (i, r) ∈ (executeBatch m db requests {}).delivered) (fine : r.error = none) :
    CarriesOwn db (executeBatch m db requests {}) i req r ↔
      2 ≤ requests.length ∧ (∀ other ∈ requests, other.query = req.query) ∧
        isBatchableDelete req.query = some false := by
  match requests, enqueued, at_i, sent with
  | [], _, at_i, _ => cases at_i
  | [single], _, _, sent =>
    exact iff_of_false (not_carries (single_returns_nothing sent)) fun several =>
      absurd several.1 (by simp)
  | first :: second :: rest, enqueued, at_i, sent =>
    have several : 2 ≤ (first :: second :: rest).length := Nat.le_add_left 2 rest.length
    rw [and_iff_right several]
    exact batch_returns_iff (b := ⟨first :: second :: rest, several⟩) enqueued at_i returning
      sent fine

def returningInserts : List WriteRequest :=
  [{ query := lit "INSERT INTO t (a) VALUES (?) RETURNING id", params := [.int 5],
     hasReturning := true },
    { query := lit "INSERT INTO t (a) VALUES (?) RETURNING id", params := [.int 6],
      hasReturning := true }]

def numbered (k : Nat) : Reply := .ok 1 0 k

theorem returning_inserts_carry :
    CarriesOwn numbered (executeBatch {} numbered returningInserts {}) 1
      { query := lit "INSERT INTO t (a) VALUES (?) RETURNING id", params := [.int 6],
        hasReturning := true }
      { affectedRows := 1, returningValues := [.int 3], batchSize := 2 } :=
  (returning_value_iff {} numbered returningInserts (List.forall_mem_cons.mpr ⟨by decide +kernel,
      List.forall_mem_singleton.mpr (by decide +kernel)⟩) 1 _ rfl (by decide +kernel) _
        (by decide +kernel) rfl).mpr
    ⟨by decide, List.forall_mem_cons.mpr ⟨rfl, List.forall_mem_singleton.mpr rfl⟩, by
      decide +kernel⟩

def returningDeletes : List WriteRequest :=
  [{ query := lit "DELETE FROM t WHERE id = ? RETURNING a", params := [.int 1],
     hasReturning := true },
    { query := lit "DELETE FROM t WHERE id = ? RETURNING a", params := [.int 2],
      hasReturning := true }]

/-- The insert that is alone in its batch is answered without its value, and so are the
deletes, whose statement lost the clause. -/
theorem returning_lost :
    let single := executeBatch {} numbered (returningInserts.take 1) {}
    let combined := executeBatch {} numbered returningDeletes {}
    hasReturningClause (lit "INSERT INTO t (a) VALUES (?) RETURNING id") = true ∧
      single.delivered = [(0, { affectedRows := 1, batchSize := 1 })] ∧
      ¬ CarriesOwn numbered single 0
        { query := lit "INSERT INTO t (a) VALUES (?) RETURNING id", params := [.int 5],
          hasReturning := true }
        { affectedRows := 1, batchSize := 1 } ∧
      hasReturningClause (lit "DELETE FROM t WHERE id = ? RETURNING a") = true ∧
      combined.calls = [.exec (lit "DELETE FROM t WHERE id IN (?,?)") [.int 1, .int 2]] ∧
      combined.delivered =
        [(0, { affectedRows := 1, batchSize := 2 }), (1, { affectedRows := 1, batchSize := 2 })] :=
  ⟨by decide +kernel, by decide +kernel, not_carries rfl, by decide +kernel, by decide +kernel, by
    decide +kernel⟩

end TQDBProxy.WriteBatch
