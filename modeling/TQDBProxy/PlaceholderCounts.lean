import TQDBProxy.MariaDBSends
import TQDBProxy.ParameterCodec
import TQDBProxy.SqlCode
import TQDBProxy.StatementBounds

/-! How many parameters an execution has. The backend counts the placeholders of the
prepared text; the proxy counts the question marks of the text without its hints, and
with another count it reads the body at other offsets. -/

namespace TQDBProxy.MariaDB

open SqlTokens TQDBProxy.Parser

def placeholders (text : GoString) : Nat := (code .mysql text).count [63]

example : placeholders (lit "SELECT '?', 5--- ?\n - ? /*! + ? */ # ?") = 2 := by decide +kernel

structure Execution where
  head : ExecuteHead
  params : List Param
  typesSent : Bool

def Execution.body (e : Execution) : List UInt8 :=
  if e.params.isEmpty then e.head.bytes else executeBody e.head e.params e.typesSent

def Execution.values (e : Execution) : List Value := e.params.map Param.value

theorem Execution.length_body (e : Execution) : 9 ≤ e.body.length := by
  have nine := e.head.nine
  unfold Execution.body
  split
  · omega
  · rw [executeBody, ExecuteHead.front]
    simp only [List.length_append]
    omega

theorem decode_execution (e : Execution) {query : GoString}
    (marks : Strings.count query 63 = e.params.length) (fits : e.body.length < 2 ^ 63) :
    decodeStmtParams e.body query = .ok e.values ∨
      ∃ error, decodeStmtParams e.body query = .error error := by
  unfold Execution.body at fits ⊢
  cases none : e.params.isEmpty with
  | true =>
    refine .inr ⟨lit "packet too short", ?_⟩
    rw [if_pos rfl, decodeStmtParams, if_pos (by rw [e.head.nine]; decide)]
  | false =>
    rw [none] at fits
    simp only [Bool.false_eq_true, if_false] at fits ⊢
    have result := decodeStmtParams_executeBody e.head e.params e.typesSent marks fits
    by_cases known : e.params.all (if e.typesSent then Param.supported else Param.isNull) = true
    · rw [if_pos known] at result
      exact .inl result
    · rw [if_neg known] at result
      exact .inr result

/-! What is handed to the manager -/

variable {w : World} {s : Session} {parsed : ParsedQuery} {data : List UInt8}

def enqueuing (values : List Value) : Limits where
  stays := False
  silent := False
  emits e := ∀ db key query params batchMs, e = .enqueued db key query params batchMs →
    params = values
  plain := by
    rintro _ plain _ _ _ _ _ rfl
    cases plain

def unqueued : Limits where
  stays := False
  silent := False
  emits e := ∀ db key query params batchMs, e ≠ .enqueued db key query params batchMs
  plain := by
    rintro _ plain _ _ _ _ _ rfl
    cases plain

theorem enqueued_values {values params : List Value} {db key query : GoString} {batchMs : Nat}
    (quiet : s.events = [])
    (mem : .enqueued db key query params batchMs ∈
      (handleBatchedPreparedExecute w data parsed values s).2.events) : params = values := by
  have moves :
      Moves (enqueuing values) s (handleBatchedPreparedExecute w data parsed values s).2 := by
    refine moves_handleBatchedPreparedExecute id False.elim ?_ ?_
    · rintro _ _ _ _ _ ⟨⟩
    · rintro _ _ _ _ _ ⟨⟩
      rfl
  rcases moves.emitted _ mem with old | new
  · rw [quiet] at old
    cases old
  · exact new _ _ _ _ _ rfl

theorem not_enqueued {params : List Value} {db key query : GoString} {batchMs : Nat}
    (quiet : s.events = []) :
    .enqueued db key query params batchMs ∉ (executePrepared w parsed data s).2.events := by
  have moves : Moves unqueued s (executePrepared w parsed data s).2 := by
    refine moves_executePrepared False.elim False.elim ?_ ?_
    · exact fun _ _ _ => by simp [unqueued]
    · exact fun _ _ => by simp [unqueued]
  intro mem
  rcases moves.emitted _ mem with old | new
  · rw [quiet] at old
    cases old
  · exact new _ _ _ _ _ rfl

theorem resetBackend_keeps {e : Event} (mem : e ∈ s.events) : e ∈ s.resetBackend.events := by
  unfold Session.resetBackend Session.closeBackend
  split <;> simp [Session.note, mem]

theorem exchange_keeps (w : World) (c : Command) (s : Session) :
    ∀ e ∈ s.events, e ∈ (exchange w c s).2.events := by
  intro e mem
  unfold exchange
  split
  · exact mem
  · dsimp only
    split
    · exact resetBackend_keeps (List.mem_cons_of_mem _ mem)
    · exact List.mem_cons_of_mem _ mem

theorem exchange_sent {c : Command} {conn : Nat} (connected : s.backend = some conn) :
    .sent s.begun conn c ∈ (exchange w c s).2.events := by
  unfold exchange
  rw [connected]
  dsimp only
  split
  · exact resetBackend_keeps List.mem_cons_self
  · exact List.mem_cons_self

theorem executePrepared_keeps {e : Event} (unserved : servePrepared w parsed data s = none)
    (mem : e ∈ (exchange w (.stmtExecute data) (noteWrite parsed s.openSession s)).2.events) :
    e ∈ (executePrepared w parsed data s).2.events := by
  unfold executePrepared
  rw [unserved]
  rcases made : exchange w (.stmtExecute data) (noteWrite parsed s.openSession s) with ⟨reply, t⟩
  rw [made] at mem
  cases reply with
  | none => exact mem
  | some response =>
    dsimp only
    split
    · unfold handleLocalInfile
      split
      · exact mem
      · exact resetBackend_keeps mem
      · exact mem
    · split
      · unfold storeResult
        split
        · exact List.mem_cons_of_mem _ mem
        · exact mem
      · exact mem

theorem enqueued_mem (w : World) (data : List UInt8) (parsed : ParsedQuery) (values : List Value)
    (s : Session) :
    .enqueued s.db parsed.getBatchKey parsed.query values parsed.batchMs ∈
      (handleBatchedPreparedExecute w data parsed values s).2.events := by
  unfold handleBatchedPreparedExecute
  dsimp only
  split
  · exact List.mem_cons_self
  · split
    · exact List.mem_cons_self
    · split
      · have kept := exchange_keeps w (.stmtExecute data)
          ((s.note (.write s.openSession .manager)).note
            (.enqueued s.db parsed.getBatchKey parsed.query values parsed.batchMs)) _
          List.mem_cons_self
        split
        · rename_i made
          rw [made] at kept
          exact kept
        · rename_i made
          rw [made] at kept
          exact kept
      · exact List.mem_cons_self

/-- The execution of a write with a batch hint: with the values that were sent to the manager, or
directly. -/
def Honoured (w : World) (data : List UInt8) (parsed : ParsedQuery) (values : List Value)
    (s : Session) : Prop :=
  handleExecute w data s.fresh = handleBatchedPreparedExecute w data parsed values s.fresh ∨
    handleExecute w data s.fresh = executePrepared w parsed data s.fresh

theorem handleExecute_batchable {id : Nat} (long : 4 ≤ data.length)
    (prepared : s.preparedStatements.find? (·.1 == stmtID data) = some (id, parsed))
    (outside : s.inTransaction = false) (batchable : parsed.isBatchable = true) :
    handleExecute w data s =
      match decodeStmtParams data parsed.query with
      | .panics => (none, s.crash)
      | .ok params => handleBatchedPreparedExecute w data parsed params s
      | .error _ => executePrepared w parsed data s := by
  have writable : parsed.isWritable = true := by
    unfold ParsedQuery.isBatchable at batchable
    exact (Bool.and_eq_true_iff.mp batchable).1
  have queued : (!s.inTransaction && parsed.isWritable && parsed.isBatchable) = true := by
    rw [outside, writable, batchable]
    rfl
  unfold handleExecute
  rw [if_neg (by omega), prepared]
  exact if_pos queued

theorem executePrepared_ne_crash (quiet : s.events = []) (batchable : parsed.isBatchable = true) :
    executePrepared w parsed data s ≠ (none, s.crash) := by
  have uncached : servePrepared w parsed data s = none := by
    rw [servePrepared, Parser.not_cacheable_of_batchable batchable]
    rfl
  intro crashed
  cases connected : s.backend with
  | none =>
    have unsent :
        exchange w (.stmtExecute data) (noteWrite parsed s.openSession s) = (none, s.crash) := by
      simp [noteWrite, connected, exchange]
    unfold executePrepared at crashed
    rw [uncached, unsent] at crashed
    cases crashed
  | some conn =>
    have sent := executePrepared_keeps uncached
      (exchange_sent (w := w) (c := .stmtExecute data) (by rw [noteWrite_backend, connected]))
    rw [crashed, show (s.crash).events = [] from quiet] at sent
    cases sent

theorem values_of_honoured {id : Nat} {values params : List Value} (long : 4 ≤ data.length)
    (prepared : s.preparedStatements.find? (·.1 == stmtID data) = some (id, parsed))
    (outside : s.inTransaction = false) (batchable : parsed.isBatchable = true)
    (decoded : decodeStmtParams data parsed.query = .ok params)
    (honoured : Honoured w data parsed values s) : params = values := by
  have handled : handleExecute w data s.fresh = _ :=
    handleExecute_batchable (s := s.fresh) long prepared outside batchable
  rw [decoded] at handled
  have mem := enqueued_mem w data parsed params s.fresh
  unfold Honoured at honoured
  rw [handled] at honoured
  rcases honoured with managed | direct
  · rw [show handleBatchedPreparedExecute w data parsed params s.fresh = _ from managed] at mem
    exact enqueued_values rfl mem
  · rw [show handleBatchedPreparedExecute w data parsed params s.fresh = _ from direct] at mem
    exact absurd mem (not_enqueued rfl)

def preparedSession (text : GoString) : Session where
  backend := some 0
  backendPool := []
  backendAddr := []
  backendName := []
  db := []
  preparedStatements := [(1, parse text)]

def twoParams : Execution where
  head := ⟨[1, 0, 0, 0, 0, 1, 0, 0, 0], rfl⟩
  params := [.signed .tiny (BitVec.ofInt _ 1),
    .string .varString 0 [4] [97, 1, 98, 99] (by decide)]
  typesSent := true

end TQDBProxy.MariaDB
