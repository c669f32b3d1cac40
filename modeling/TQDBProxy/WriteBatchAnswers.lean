import TQDBProxy.WriteBatchExecutor

/-! A request that is answered without an error should have its write in the committed
state, and a request that is answered with an error should not. The prepared strategy
rolls back on an error and still sends every request the result of its own execution. -/

namespace TQDBProxy.WriteBatch

def Acknowledged (s : Session) : Prop :=
  ∀ i result, (i, result) ∈ s.delivered → (result.error = none ↔ i ∈ s.committed)

/-- Nothing is sent and nothing is committed; the open transaction holds `writes`. -/
structure Holds (s : Session) (writes : List Nat) : Prop where
  delivered : s.delivered = []
  committed : s.committed = []
  working : s.working = writes

structure Settled (s : Session) (writes : List Nat) : Prop where
  delivered : s.delivered = []
  committed : s.committed = writes

variable {db : Nat → Reply} {s t : Session} {c : Call} {reply : Reply} {e : GoString}
  {affected lastID returned : Int} {w : List Nat} {size i : Nat} {b : Batch}

theorem holds_call (held : Holds s w) (made : s.call db c = (reply, t)) : Holds t w := by
  cases made
  exact ⟨held.delivered, held.committed, held.working⟩

theorem holds_txExec (held : Holds s w) (made : s.txExec db c size i = (reply, t)) :
    Holds t (if reply.succeeds then w ++ c.carries size i else w) := by
  unfold Session.txExec Session.call at made
  cases answer : db s.calls.length <;> rw [answer] at made <;> cases made
  · exact ⟨held.delivered, held.committed, congrArg (· ++ c.carries size i) held.working⟩
  · exact ⟨held.delivered, held.committed, held.working⟩

theorem holds_dbExec_error (held : Holds s w) (made : s.dbExec db c size i = (.error e, t)) :
    Holds t w := by
  unfold Session.dbExec Session.call at made
  cases answer : db s.calls.length <;> rw [answer] at made <;> cases made
  exact ⟨held.delivered, held.committed, held.working⟩

theorem settled_dbExec (held : Holds s w)
    (made : s.dbExec db c size i = (.ok affected lastID returned, t)) :
    Settled t (c.carries size i) := by
  unfold Session.dbExec Session.call at made
  cases answer : db s.calls.length <;> rw [answer] at made <;> cases made
  exact ⟨held.delivered, by simp [held.committed]⟩

theorem holds_commit_error (held : Holds s w) (made : s.commit db = (.error e, t)) :
    Holds t [] := by
  unfold Session.commit Session.call at made
  cases answer : db s.calls.length <;> rw [answer] at made <;> cases made
  exact ⟨held.delivered, held.committed, rfl⟩

theorem settled_commit (held : Holds s w)
    (made : s.commit db = (.ok affected lastID returned, t)) : Settled t w := by
  unfold Session.commit Session.call at made
  cases answer : db s.calls.length <;> rw [answer] at made <;> cases made
  exact ⟨held.delivered, by simp [held.committed, held.working]⟩

theorem holds_rollback (held : Holds s w) : Holds (s.rollback db) [] :=
  ⟨held.delivered, held.committed, rfl⟩

theorem holds_close (held : Holds s w) : Holds (s.close db) w :=
  ⟨held.delivered, held.committed, held.working⟩

theorem acknowledged_close : Acknowledged (s.close db) ↔ Acknowledged s := Iff.rfl

theorem acknowledged_crash (held : Holds s w) : Acknowledged s.crash := by
  intro i result mem
  simp [Session.crash, held.delivered] at mem

theorem acknowledged_sendAll {results : List WriteResult} (fresh : s.delivered = []) :
    Acknowledged (s.sendAll results) ↔
      ∀ (i : Nat) (bound : i < results.length), (results[i].error = none ↔ i ∈ s.committed) := by
  unfold Acknowledged Session.sendAll
  simp only [fresh, List.nil_append, List.mem_map, Prod.mk.injEq, Prod.exists]
  constructor
  · intro all i bound
    exact all i results[i] ⟨results[i], i, List.mk_mem_zipIdx_iff_getElem?.mpr (by simp), rfl, rfl⟩
  · intro all i result sent
    obtain ⟨result', i', mem, rfl, rfl⟩ := sent
    obtain ⟨bound, eq⟩ := List.getElem?_eq_some_iff.mp (List.mk_mem_zipIdx_iff_getElem?.mp mem)
    rw [← eq]
    exact all i' bound

theorem acknowledged_sendError (held : Holds s w) : Acknowledged (s.sendError b e) := by
  unfold Session.sendError
  rw [acknowledged_sendAll held.delivered]
  intro i bound
  simp [held.committed, WriteResult.failed]

theorem acknowledged_sendAndNotify {results : List WriteResult} (done : Settled s b.indices)
    (count : results.length = b.requests.length) (fine : ∀ r ∈ results, r.error = none) :
    Acknowledged (s.sendAndNotify b results) := by
  have sent : Acknowledged (s.sendAll results) := by
    rw [acknowledged_sendAll done.delivered]
    intro i bound
    rw [done.committed, Batch.indices, List.mem_range, ← count]
    exact iff_of_true (fine _ (List.getElem_mem bound)) bound
  exact sent

theorem acknowledged_delete (held : Holds s w) :
    Acknowledged (executeTrueBatchedDelete db b s) := by
  unfold executeTrueBatchedDelete
  split
  · exact acknowledged_crash held
  · split
    · rename_i made
      exact acknowledged_sendError (holds_dbExec_error held made)
    · rename_i made
      exact acknowledged_sendAndNotify (settled_dbExec held made) (by simp) (by simp)

/-- The requests answered so far, and those committed, lie before position `i`. -/
structure Through (s : Session) (i : Nat) : Prop where
  acknowledged : Acknowledged s
  answered : ∀ p ∈ s.delivered, p.1 < i
  committed : ∀ j ∈ s.committed, j < i

theorem through_send_error {i : Nat} {message : GoString} (before : Through s i) :
    Through (s.send i (.failed (.database message))) (i + 1) where
  acknowledged := by
    intro j result mem
    rcases List.mem_append.mp mem with old | new
    · exact before.acknowledged j result old
    · cases List.mem_singleton.mp new
      have absent : i ∉ s.committed := fun mem => Nat.lt_irrefl i (before.committed i mem)
      simpa [WriteResult.failed, Session.send] using absent
  answered := by
    intro p mem
    rcases List.mem_append.mp mem with old | new
    · exact Nat.lt_succ_of_lt (before.answered p old)
    · rw [List.mem_singleton.mp new]
      exact Nat.lt_succ_self i
  committed := fun j mem => Nat.lt_succ_of_lt (before.committed j mem)

theorem through_dbExec_error {j : Nat} (before : Through s j)
    (made : s.dbExec db c size i = (.error e, t)) : Through t j := by
  unfold Session.dbExec Session.call at made
  cases answer : db s.calls.length <;> rw [answer] at made <;> cases made
  exact ⟨before.acknowledged, before.answered, before.committed⟩

theorem through_send_ok {args : List Value} {result : WriteResult} (before : Through s i)
    (made : s.dbExec db (.stmtExec args) size i = (.ok affected lastID returned, t))
    (fine : result.error = none) : Through (t.send i result) (i + 1) := by
  unfold Session.dbExec Session.call at made
  cases answer : db s.calls.length <;> rw [answer] at made <;> cases made
  constructor
  · intro j result' mem
    simp only [Session.send, Call.carries, List.mem_append, List.mem_singleton,
      Prod.mk.injEq] at mem ⊢
    rcases mem with old | ⟨rfl, rfl⟩
    · have earlier := before.answered _ old
      rw [before.acknowledged j result' old]
      constructor
      · exact Or.inl
      · intro later
        rcases later with known | same
        · exact known
        · exact absurd same (Nat.ne_of_lt earlier)
    · simp [fine]
  · intro p mem
    rcases List.mem_append.mp mem with old | new
    · exact Nat.lt_succ_of_lt (before.answered p old)
    · rw [List.mem_singleton.mp new]
      exact Nat.lt_succ_self i
  · intro j mem
    rcases List.mem_append.mp mem with old | new
    · exact Nat.lt_succ_of_lt (before.committed j old)
    · rw [List.mem_singleton.mp new]
      exact Nat.lt_succ_self i

theorem through_notify {i j n : Nat} {req : WriteRequest} (before : Through s i) :
    Through (s.notify req j n) i := by
  unfold Session.notify
  split
  · exact ⟨before.acknowledged, before.answered, before.committed⟩
  · exact before

theorem acknowledged_fallbackRows {n : Nat} (requests : List WriteRequest) {i : Nat}
    (before : Through s i) : Acknowledged (fallbackRows db n requests i s) := by
  induction requests generalizing i s with
  | nil => exact before.acknowledged
  | cons req rest ih =>
    unfold fallbackRows
    split
    · rename_i made
      exact ih (through_send_error (through_dbExec_error before made))
    · rename_i made
      exact ih (through_notify (through_send_ok before made rfl))

theorem acknowledged_fallback (held : Holds s w) :
    Acknowledged (executePreparedBatchFallback db b s) := by
  unfold executePreparedBatchFallback
  split
  · rename_i made
    exact acknowledged_sendError (holds_call held made)
  · rename_i made
    have opened := holds_call held made
    rw [acknowledged_close]
    apply acknowledged_fallbackRows
    constructor
    · intro i result mem
      simp [opened.delivered] at mem
    · simp [opened.delivered]
    · simp [opened.committed]

theorem acknowledged_multiRow {m : Manager} (held : Holds s w) :
    Acknowledged (executeTrueBatchedInsertMultiRow m db b s) := by
  unfold executeTrueBatchedInsertMultiRow
  split
  · exact acknowledged_fallback held
  · exact acknowledged_crash held
  · split
    · rename_i made
      exact acknowledged_sendError (holds_dbExec_error held made)
    · rename_i made
      exact acknowledged_sendAndNotify (settled_dbExec held made) (by simp [Batch.indices])
        (by simp)

theorem copyRows_holds (requests : List WriteRequest) {i : Nat} {outcome : Option GoString}
    (held : Holds s (List.range i)) (made : copyRows db size requests i s = (outcome, t)) :
    (∃ w, Holds t w) ∧ (outcome = none → Holds t (List.range (i + requests.length))) := by
  induction requests generalizing i s with
  | nil =>
    cases made
    exact ⟨⟨_, held⟩, fun _ => held⟩
  | cons req rest ih =>
    unfold copyRows at made
    split at made
    · rename_i answer
      cases made
      exact ⟨⟨_, holds_txExec held answer⟩, fun impossible => by cases impossible⟩
    · rename_i answer
      have staged := holds_txExec held answer
      simp only [Reply.succeeds, Call.carries, if_true, ← List.range_succ] at staged
      rw [List.length_cons, Nat.add_comm rest.length, ← Nat.add_assoc]
      exact ih staged made

theorem acknowledged_finishCopy (held : Holds s b.indices) : Acknowledged (finishCopy db b s) := by
  unfold finishCopy
  split
  · rename_i made
    exact acknowledged_sendError (holds_rollback (holds_close (holds_call held made)))
  · rename_i flushed
    split
    · rename_i made
      exact acknowledged_sendError (holds_rollback (holds_call (holds_call held flushed) made))
    · rename_i closed
      have ready := holds_call (holds_call held flushed) closed
      split
      · rename_i made
        exact acknowledged_sendError (holds_commit_error ready made)
      · rename_i made
        exact acknowledged_sendAndNotify (settled_commit ready made) (by simp [bulkResults])
          (by simp [bulkResults])

theorem acknowledged_copy {m : Manager} (held : Holds s []) :
    Acknowledged (executeCopyBatchedInsert m db b s) := by
  unfold executeCopyBatchedInsert
  split
  · exact acknowledged_crash held
  · exact acknowledged_multiRow held
  · split
    · rename_i made
      exact acknowledged_sendError (holds_call held made)
    · rename_i begun
      have opened := holds_call held begun
      split
      · rename_i made
        exact acknowledged_multiRow (holds_rollback (holds_call opened made))
      · rename_i prepared
        have ready := holds_call opened prepared
        split
        · rename_i made
          obtain ⟨⟨w, staged⟩, -⟩ := copyRows_holds (i := 0) _ ready made
          exact acknowledged_sendError (holds_rollback (holds_close staged))
        · rename_i made
          have staged := (copyRows_holds (i := 0) _ ready made).2 rfl
          rw [Nat.zero_add] at staged
          exact acknowledged_finishCopy staged

theorem acknowledged_loadData {m : Manager} (held : Holds s []) :
    Acknowledged (executeLoadDataInfileBatchedInsert m db b s) := by
  unfold executeLoadDataInfileBatchedInsert
  split
  · exact acknowledged_crash held
  · exact acknowledged_multiRow held
  · have registered : Holds { s with loadDataHandlerSeq := s.loadDataHandlerSeq + 1 } [] :=
      ⟨held.delivered, held.committed, held.working⟩
    dsimp only
    split
    · rename_i made
      exact acknowledged_sendError (holds_call registered made)
    · rename_i begun
      have opened := holds_call registered begun
      split
      · rename_i made
        exact acknowledged_multiRow (holds_rollback (holds_txExec opened made))
      · rename_i loaded
        have staged := holds_txExec opened loaded
        have all : (Batch.paramLists b).length = b.requests.length := List.length_map _
        simp only [Reply.succeeds, Call.carries, if_true, List.nil_append, all] at staged
        split
        · rename_i made
          exact acknowledged_sendError (holds_commit_error staged made)
        · rename_i made
          exact acknowledged_sendAndNotify (settled_commit staged made) (by simp [bulkResults])
            (by simp [bulkResults])

theorem acknowledged_insert {m : Manager} (held : Holds s []) :
    Acknowledged (executeTrueBatchedInsert m db b s) := by
  unfold executeTrueBatchedInsert
  split
  · split
    · exact acknowledged_copy held
    · exact acknowledged_loadData held
  · exact acknowledged_multiRow held

theorem transactionRows_holds {n : Nat} (requests : List WriteRequest) {i : Nat}
    {outcome : Except GoString (List WriteResult)}
    (held : Holds s (List.range i)) (made : transactionRows db n requests i s = (outcome, t)) :
    (∃ w, Holds t w) ∧ ∀ results, outcome = .ok results →
      Holds t (List.range (i + requests.length)) ∧ results.length = requests.length ∧
        ∀ r ∈ results, r.error = none := by
  induction requests generalizing i s outcome with
  | nil =>
    cases made
    refine ⟨⟨_, held⟩, ?_⟩
    intro results same
    cases same
    exact ⟨held, rfl, by simp⟩
  | cons req rest ih =>
    unfold transactionRows at made
    split at made
    · rename_i answer
      cases made
      exact ⟨⟨_, holds_txExec held answer⟩, by simp⟩
    · rename_i answer
      have staged := holds_txExec held answer
      simp only [Reply.succeeds, Call.carries, if_true, ← List.range_succ] at staged
      split at made
      · rename_i later
        cases made
        exact ⟨(ih staged later).1, by simp⟩
      · rename_i later
        cases made
        obtain ⟨holding, success⟩ := ih staged later
        obtain ⟨all, count, fine⟩ := success _ rfl
        refine ⟨holding, ?_⟩
        intro results same
        cases same
        rw [List.length_cons, List.length_cons, count, Nat.add_comm rest.length, ← Nat.add_assoc]
        exact ⟨all, rfl, by simpa using fine⟩

theorem acknowledged_transaction (held : Holds s []) :
    Acknowledged (executeTransactionBatch db b s) := by
  unfold executeTransactionBatch
  split
  · rename_i made
    exact acknowledged_sendError (holds_call held made)
  · rename_i begun
    have opened := holds_call held begun
    split
    · rename_i made
      obtain ⟨⟨w, staged⟩, -⟩ := transactionRows_holds (i := 0) _ opened made
      exact acknowledged_sendError (holds_rollback staged)
    · rename_i made
      obtain ⟨staged, count, fine⟩ := (transactionRows_holds (i := 0) _ opened made).2 _ rfl
      rw [Nat.zero_add] at staged
      split
      · rename_i made
        exact acknowledged_sendError (holds_commit_error staged made)
      · rename_i made
        exact acknowledged_sendAndNotify (settled_commit staged made) count fine

theorem preparedResult_failed (hasReturning : Bool) (n : Nat) (reply : Reply) :
    (preparedResult hasReturning n reply).error.isSome = !reply.succeeds := by
  unfold preparedResult
  cases reply with
  | ok => cases hasReturning <;> simp [Reply.succeeds]
  | error => simp [Reply.succeeds, WriteResult.failed]

theorem txExec_reply (made : s.txExec db c size i = (reply, t)) :
    reply = db s.calls.length ∧ t.calls.length = s.calls.length + 1 := by
  unfold Session.txExec Session.call at made
  cases answer : db s.calls.length <;> rw [answer] at made <;> cases made <;> simp

theorem preparedRows_results {hasReturning : Bool} {n : Nat}
    (requests : List WriteRequest) (i : Nat) (s : Session) :
    (preparedRows db hasReturning n requests i s).1 =
      (List.range' s.calls.length requests.length).map fun k =>
        preparedResult hasReturning n (db k) := by
  induction requests generalizing i s with
  | nil => rfl
  | cons req rest ih =>
    unfold preparedRows
    split
    rename_i reply next made
    obtain ⟨answer, later⟩ := txExec_reply made
    rw [List.length_cons, List.range'_succ, List.map_cons, ← later, ← ih (i + 1) next, answer]

theorem preparedRows_holds {hasReturning : Bool} {n : Nat} (requests : List WriteRequest) {i : Nat}
    (held : Holds s w) :
    (∃ w', Holds (preparedRows db hasReturning n requests i s).2 w') ∧
      ((∀ r ∈ (preparedRows db hasReturning n requests i s).1, r.error = none) →
        Holds (preparedRows db hasReturning n requests i s).2
          (w ++ List.range' i requests.length)) := by
  induction requests generalizing i s w with
  | nil =>
    simp only [preparedRows, List.length_nil, List.range'_zero, List.append_nil]
    exact ⟨⟨w, held⟩, fun _ => held⟩
  | cons req rest ih =>
    unfold preparedRows
    split
    rename_i reply next made
    have staged := holds_txExec held made
    refine ⟨(ih staged).1, ?_⟩
    intro fine
    have first := preparedResult_failed hasReturning n reply
    rw [fine _ List.mem_cons_self] at first
    have one : (if hasReturning then Call.stmtQueryRow req.params
        else .stmtExec req.params).carries n i = [i] := by
      cases hasReturning <;> rfl
    rw [if_pos (by simpa using first), one] at staged
    rw [List.length_cons, List.range'_succ, ← List.singleton_append, ← List.append_assoc]
    exact (ih staged).2 fun r mem => fine r (List.mem_cons_of_mem _ mem)

/-- The transaction is begun, the statement prepared, and of the executions
that follow some succeed and some fail. -/
def PartlyFailed (db : Nat → Reply) (n : Nat) : Prop :=
  (db 0).succeeds = true ∧ (db 1).succeeds = true ∧
    (∃ i < n, (db (2 + i)).succeeds = true) ∧ ∃ i < n, (db (2 + i)).succeeds = false

theorem preparedRows_failed {hasReturning : Bool} {n : Nat} {requests : List WriteRequest}
    {results : List WriteResult} (position : s.calls.length = 2)
    (rows : results = (preparedRows db hasReturning n requests 0 s).1) (failed : Bool) :
    (∃ r ∈ results, r.error.isSome = failed) ↔
      ∃ i < requests.length, (db (2 + i)).succeeds = !failed := by
  rw [rows, preparedRows_results, position, List.range'_eq_map_range, List.map_map]
  simp only [List.mem_map, List.mem_range, Function.comp_apply, exists_exists_and_eq_and,
    preparedResult_failed, Bool.not_eq_eq_eq_not]

theorem acknowledged_rolledBack {results : List WriteResult} (held : Holds s w) :
    Acknowledged (s.sendAll results) ↔ ¬ ∃ r ∈ results, r.error.isSome = false := by
  rw [acknowledged_sendAll held.delivered, held.committed]
  simp only [List.not_mem_nil, iff_false, Option.isSome_eq_false_iff, Option.isNone_iff_eq_none,
    not_exists, not_and]
  rw [List.forall_mem_iff_forall_getElem]

theorem acknowledged_finishPrepared {results : List WriteResult} (held : Holds s w)
    (complete : (¬ ∃ r ∈ results, r.error.isSome = true) → Holds s b.indices)
    (count : results.length = b.requests.length) :
    Acknowledged (finishPrepared db b results s) ↔
      ¬ ((∃ r ∈ results, r.error.isSome = false) ∧ ∃ r ∈ results, r.error.isSome = true) := by
  unfold finishPrepared
  split
  · rename_i failed
    rw [List.any_eq_true] at failed
    rw [acknowledged_close, acknowledged_rolledBack (holds_rollback held)]
    simp only [failed, and_true]
  · rename_i fine
    rw [List.any_eq_true] at fine
    refine iff_of_true ?_ fun both => fine both.2
    split
    · rename_i made
      exact acknowledged_sendError (holds_commit_error held made)
    · rename_i made
      rw [acknowledged_close]
      apply acknowledged_sendAndNotify (settled_commit (complete fine) made) count
      intro r mem
      simpa using fun set => fine ⟨r, mem, set⟩

theorem call_reply (made : s.call db c = (reply, t)) :
    reply = db s.calls.length ∧ t.calls.length = s.calls.length + 1 := by
  cases made
  simp

theorem acknowledged_prepared :
    Acknowledged (executePreparedBatch db b {}) ↔ ¬ PartlyFailed db b.requests.length := by
  have fresh : Holds {} [] := ⟨rfl, rfl, rfl⟩
  unfold executePreparedBatch PartlyFailed
  split
  · rename_i made
    have refused : _ = db 0 := (call_reply made).1
    refine iff_of_true (acknowledged_sendError (holds_call fresh made)) ?_
    simp [← refused, Reply.succeeds]
  · rename_i begun
    have opened := holds_call fresh begun
    have first : _ = db 0 := (call_reply begun).1
    have advanced : _ = 1 := (call_reply begun).2
    split
    · rename_i made
      have refused := (call_reply made).1
      rw [advanced] at refused
      refine iff_of_true (acknowledged_sendError (holds_rollback (holds_call opened made))) ?_
      simp [← refused, Reply.succeeds]
    · rename_i prepared
      have ready := holds_call opened prepared
      obtain ⟨second, position⟩ := call_reply prepared
      rw [advanced] at second position
      obtain ⟨⟨w, staged⟩, success⟩ := preparedRows_holds b.requests ready
      rw [acknowledged_finishPrepared staged ?_ ?_, preparedRows_failed position rfl,
        preparedRows_failed position rfl, ← first, ← second]
      · simp [Reply.succeeds]
      · intro fine
        rw [Batch.indices, List.range_eq_range']
        apply success
        intro r mem
        simpa using fun set => fine ⟨r, mem, set⟩
      · rw [preparedRows_results]
        simp

def prepares (b : Batch) : Bool :=
  allSame b && !(!b.first.hasReturning && isBatchableInsert b.first.query) &&
    isBatchableDelete b.first.query == some false

theorem batch_acknowledged_iff (m : Manager) (db : Nat → Reply) (b : Batch) :
    Acknowledged (executeBatchedWrites m db b {}) ↔
      ¬ (prepares b = true ∧ PartlyFailed db b.requests.length) := by
  have fresh : Holds {} [] := ⟨rfl, rfl, rfl⟩
  unfold executeBatchedWrites prepares
  split
  · rename_i same
    split
    · rename_i insert
      exact iff_of_true (acknowledged_insert fresh) (by simp [insert])
    · rename_i insert
      split
      · rename_i outside
        exact iff_of_true (acknowledged_crash fresh) (by simp [outside])
      · rename_i delete
        exact iff_of_true (acknowledged_delete fresh) (by simp [delete])
      · rename_i delete
        rw [acknowledged_prepared]
        simp only [same, insert, delete, beq_self_eq_true, Bool.not_false, Bool.and_self, true_and]
  · rename_i same
    exact iff_of_true (acknowledged_transaction fresh) (by simp [same])

def updates : Batch where
  requests := [{ query := lit "UPDATE t SET a = ? WHERE id = ?", params := [.int 5, .int 1] },
    { query := lit "UPDATE t SET a = ? WHERE id = ?", params := [.null, .int 2] }]
  several := by decide

def secondRefused (k : Nat) : Reply :=
  if k = 3 then .error (lit "Column 'a' cannot be null") else .ok 1 0 0

theorem prepared_acknowledges_rolledBack :
    let s := executeBatchedWrites {} secondRefused updates {}
    (0, { affectedRows := 1, batchSize := 2 }) ∈ s.delivered ∧ s.committed = [] ∧
      ¬ Acknowledged s := by
  have sent : (0, { affectedRows := 1, batchSize := 2 }) ∈
      (executeBatchedWrites {} secondRefused updates {}).delivered := by decide
  have lost : (executeBatchedWrites {} secondRefused updates {}).committed = [] := by decide
  refine ⟨sent, lost, ?_⟩
  intro all
  have kept := (all 0 _ sent).mp rfl
  rw [lost] at kept
  cases kept

end TQDBProxy.WriteBatch
