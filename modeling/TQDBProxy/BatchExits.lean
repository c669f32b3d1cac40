import TQDBProxy.WriteBatchAnswers

/-! The ways out of each strategy. Between two results nothing is sent to a request, so a
run is told by the calls it makes and by how it ends: with one error for all, with
results for all, with results request by request, or not at all. -/

namespace TQDBProxy.WriteBatch

/-- `t` is `s` after some more calls, with nothing sent in between. -/
structure Moved (s t : Session) (more : List Call) : Prop where
  calls : t.calls = s.calls ++ more
  delivered : t.delivered = s.delivered
  notified : t.notified = s.notified
  panicked : t.panicked = s.panicked

variable {m : Manager} {db : Nat → Reply} {b : Batch} {s t u : Session} {c : Call} {reply : Reply}
  {size i : Nat} {calls more : List Call} {e : GoString}

namespace Moved

theorem refl (s : Session) : Moved s s [] := ⟨(List.append_nil _).symm, rfl, rfl, rfl⟩

theorem trans (first : Moved s t calls) (second : Moved t u more) : Moved s u (calls ++ more) where
  calls := by rw [second.calls, first.calls, List.append_assoc]
  delivered := second.delivered.trans first.delivered
  notified := second.notified.trans first.notified
  panicked := second.panicked.trans first.panicked

theorem count (moved : Moved s t calls) : t.calls.length = s.calls.length + calls.length := by
  rw [moved.calls, List.length_append]

theorem call (made : s.call db c = (reply, t)) : Moved s t [c] := by
  cases made
  exact ⟨rfl, rfl, rfl, rfl⟩

theorem txExec (made : s.txExec db c size i = (reply, t)) : Moved s t [c] := by
  unfold Session.txExec Session.call at made
  cases answer : db s.calls.length <;> rw [answer] at made <;> cases made
    <;> exact ⟨rfl, rfl, rfl, rfl⟩

theorem dbExec (made : s.dbExec db c size i = (reply, t)) : Moved s t [c] := by
  unfold Session.dbExec Session.call at made
  cases answer : db s.calls.length <;> rw [answer] at made <;> cases made
    <;> exact ⟨rfl, rfl, rfl, rfl⟩

theorem commit (made : s.commit db = (reply, t)) : Moved s t [.commit] := by
  unfold Session.commit Session.call at made
  cases answer : db s.calls.length <;> rw [answer] at made <;> cases made
    <;> exact ⟨rfl, rfl, rfl, rfl⟩

theorem rollback (s : Session) : Moved s (s.rollback db) [.rollback] := ⟨rfl, rfl, rfl, rfl⟩

theorem close (s : Session) : Moved s (s.close db) [.stmtClose] := ⟨rfl, rfl, rfl, rfl⟩

end Moved

theorem call_seq (made : s.call db c = (reply, t)) :
    t.loadDataHandlerSeq = s.loadDataHandlerSeq := by
  cases made
  rfl

theorem dbExec_reply (made : s.dbExec db c size i = (reply, t)) : reply = db s.calls.length := by
  unfold Session.dbExec Session.call at made
  cases answer : db s.calls.length <;> rw [answer] at made <;> cases made <;> rfl

/-! ### One statement for the batch -/

def rowResults (m : Manager) (b : Batch) (rawID : Int) : List WriteResult :=
  b.indices.map fun (i : Nat) =>
    { affectedRows := 1,
      lastInsertId := wrap (normalizeFirstInsertID m rawID b.requests.length + i),
      batchSize := b.requests.length }

inductive MultiRowExit (m : Manager) (db : Nat → Reply) (b : Batch) (s t : Session) : Prop where
  | panics : multiRow b.first.query b.paramLists = .panics → t = s.crash → MultiRowExit m db b s t
  | fallback : multiRow b.first.query b.paramLists = .fallback →
      t = executePreparedBatchFallback db b s →
      MultiRowExit m db b s t
  | refused (text : GoString) (args : List Value) (e : GoString) (u : Session) :
      multiRow b.first.query b.paramLists = .statement text args → Moved s u [.exec text args] →
      db s.calls.length = .error e → t = u.sendError b e → MultiRowExit m db b s t
  | accepted (text : GoString) (args : List Value) (affected rawID returned : Int) (u : Session) :
      multiRow b.first.query b.paramLists = .statement text args → Moved s u [.exec text args] →
      db s.calls.length = .ok affected rawID returned →
        t = u.sendAndNotify b (rowResults m b rawID) →
      MultiRowExit m db b s t

theorem multiRow_exit (m : Manager) (db : Nat → Reply) (b : Batch) (s : Session) :
    MultiRowExit m db b s (executeTrueBatchedInsertMultiRow m db b s) := by
  unfold executeTrueBatchedInsertMultiRow
  split
  · rename_i built
    exact .fallback built rfl
  · rename_i built
    exact .panics built rfl
  · rename_i text args built
    split
    · rename_i e u made
      exact .refused text args e u built (.dbExec made) (dbExec_reply made).symm rfl
    · rename_i affected rawID returned u made
      exact .accepted text args affected rawID returned u built (.dbExec made)
        (dbExec_reply made).symm rfl

def deleteResults (b : Batch) (affected : Int) : List WriteResult :=
  b.requests.map fun _ => { affectedRows := affected, batchSize := b.requests.length }

inductive DeleteExit (db : Nat → Reply) (b : Batch) (s t : Session) : Prop where
  | panics : batchedDelete b = none → t = s.crash → DeleteExit db b s t
  | refused (text : GoString) (args : List Value) (e : GoString) (u : Session) :
      batchedDelete b = some (text, args) → Moved s u [.exec text args] →
        db s.calls.length = .error e →
      t = u.sendError b e → DeleteExit db b s t
  | accepted (text : GoString) (args : List Value) (affected lastID returned : Int) (u : Session) :
      batchedDelete b = some (text, args) → Moved s u [.exec text args] →
      db s.calls.length = .ok affected lastID returned →
        t = u.sendAndNotify b (deleteResults b affected) →
      DeleteExit db b s t

theorem delete_exit (db : Nat → Reply) (b : Batch) (s : Session) :
    DeleteExit db b s (executeTrueBatchedDelete db b s) := by
  unfold executeTrueBatchedDelete
  split
  · rename_i built
    exact .panics built rfl
  · rename_i text args built
    split
    · rename_i e u made
      exact .refused text args e u built (.dbExec made) (dbExec_reply made).symm rfl
    · rename_i affected lastID returned u made
      exact .accepted text args affected lastID returned u built (.dbExec made)
        (dbExec_reply made).symm rfl

/-! ### COPY and LOAD DATA -/

def preparedCall (hasReturning : Bool) (req : WriteRequest) : Call :=
  if hasReturning then .stmtQueryRow req.params else .stmtExec req.params

theorem copyRows_moved (requests : List WriteRequest) {i : Nat} {outcome : Option GoString}
    (made : copyRows db size requests i s = (outcome, t)) :
    ∃ rows, Moved s t rows ∧ (outcome = none → rows = requests.map (preparedCall false)) := by
  induction requests generalizing i s with
  | nil =>
    cases made
    exact ⟨[], .refl _, fun _ => rfl⟩
  | cons req rest ih =>
    unfold copyRows at made
    split at made
    · rename_i answer
      cases made
      exact ⟨_, .txExec answer, fun stopped => by cases stopped⟩
    · rename_i answer
      obtain ⟨rows, moved, all⟩ := ih made
      refine ⟨_, (Moved.txExec answer).trans moved, fun through => ?_⟩
      rw [all through]
      rfl

/-- The batch goes to the combined INSERT when the statement cannot be parsed for a bulk
load, or the bulk load is refused. -/
def handsOver (db : Nat → Reply) (s : Session) (parsed : ParsedInsert) : Bool :=
  match parsed with
  | .panics => false
  | .error _ => true
  | .ok .. => (db s.calls.length).succeeds && !(db (s.calls.length + 1)).succeeds

/-- The ways out of a bulk load that makes the calls `load` when nothing fails. -/
inductive BulkExit (m : Manager) (db : Nat → Reply) (b : Batch)
    (load : GoString → List GoString → List Call) (s t : Session) : Prop where
  | panics : parseInsertStatement b.first.query = .panics → t = s.crash → BulkExit m db b load s t
  | unparsed (e : GoString) : parseInsertStatement b.first.query = .error e →
      t = executeTrueBatchedInsertMultiRow m db b s → BulkExit m db b load s t
  | handed (table : GoString) (columns : List GoString) (call : Call) (u : Session) :
      parseInsertStatement b.first.query = .ok table columns →
      (db s.calls.length).succeeds = true → (db (s.calls.length + 1)).succeeds = false →
      Moved s u [.begin, call, .rollback] → t = executeTrueBatchedInsertMultiRow m db b u →
      BulkExit m db b load s t
  | refused (table : GoString) (columns : List GoString) (e : GoString) (u : Session)
      (calls : List Call) : parseInsertStatement b.first.query = .ok table columns →
      handsOver db s (parseInsertStatement b.first.query) = false → Moved s u calls →
      t = u.sendError b e → BulkExit m db b load s t
  | loaded (table : GoString) (columns : List GoString) (u : Session) :
      parseInsertStatement b.first.query = .ok table columns →
      (db (s.calls.length + 1)).succeeds = true → Moved s u (load table columns) →
      t = u.sendAndNotify b (bulkResults b) → BulkExit m db b load s t

theorem finishCopy_exit (db : Nat → Reply) (b : Batch) (s : Session) :
    (∃ e u calls, Moved s u calls ∧ finishCopy db b s = u.sendError b e) ∨
      ∃ u, Moved s u [.stmtExec [], .stmtClose, .commit] ∧
        finishCopy db b s = u.sendAndNotify b (bulkResults b) := by
  unfold finishCopy
  split
  · rename_i flushed
    exact .inl ⟨_, _, _, ((Moved.call flushed).trans (.close _)).trans (.rollback _), rfl⟩
  · rename_i flushed
    split
    · rename_i closed
      exact .inl ⟨_, _, _, ((Moved.call flushed).trans (.call closed)).trans (.rollback _), rfl⟩
    · rename_i closed
      have ready := (Moved.call flushed).trans (.call closed)
      split
      · rename_i committed
        exact .inl ⟨_, _, _, ready.trans (.commit committed), rfl⟩
      · rename_i committed
        exact .inr ⟨_, ready.trans (.commit committed), rfl⟩

def copyCalls (b : Batch) (table : GoString) (columns : List GoString) : List Call :=
  [.begin, .copyIn table columns] ++ b.requests.map (preparedCall false) ++
    [.stmtExec [], .stmtClose, .commit]

theorem copy_exit (m : Manager) (db : Nat → Reply) (b : Batch) (s : Session) :
    BulkExit m db b (copyCalls b) s (executeCopyBatchedInsert m db b s) := by
  unfold executeCopyBatchedInsert
  split
  · rename_i parsed
    exact .panics parsed rfl
  · rename_i parsed
    exact .unparsed _ parsed rfl
  · rename_i table columns parsed
    split
    · rename_i made
      have answer := (call_reply made).1
      exact .refused _ _ _ _ _ parsed (by rw [parsed, handsOver, ← answer]; rfl) (.call made) rfl
    · rename_i begun
      obtain ⟨first, position⟩ := call_reply begun
      have opened := Moved.call begun
      split
      · rename_i made
        have answer := (call_reply made).1
        rw [position] at answer
        exact .handed _ _ _ _ parsed (by rw [← first]; rfl) (by rw [← answer]; rfl)
          ((opened.trans (.call made)).trans (.rollback _)) rfl
      · rename_i prepared
        have answer := (call_reply prepared).1
        rw [position] at answer
        have stays : handsOver db s (parseInsertStatement b.first.query) = false := by
          rw [parsed, handsOver, ← first, ← answer]
          rfl
        have ready := opened.trans (.call prepared)
        split
        · rename_i made
          obtain ⟨rows, moved, -⟩ := copyRows_moved _ made
          exact .refused _ _ _ _ _ parsed stays
            (((ready.trans moved).trans (.close _)).trans (.rollback _)) rfl
        · rename_i made
          obtain ⟨rows, moved, all⟩ := copyRows_moved _ made
          obtain ⟨e, u, calls, ended, finish⟩ | ⟨u, ended, finish⟩ := finishCopy_exit db b _
          · exact .refused _ _ e u _ parsed stays ((ready.trans moved).trans ended) finish
          · refine .loaded table columns u parsed (by rw [← answer]; rfl) ?_ finish
            rw [copyCalls, ← all rfl]
            exact (ready.trans moved).trans ended

def loadDataCalls (b : Batch) (handlerSeq : Nat) (table : GoString) (columns : List GoString) :
    List Call :=
  [.begin, .loadData (loadQuery handlerSeq table columns) b.paramLists, .commit]

theorem loadData_exit (m : Manager) (db : Nat → Reply) (b : Batch) (s : Session) :
    BulkExit m db b (loadDataCalls b (s.loadDataHandlerSeq + 1)) s
      (executeLoadDataInfileBatchedInsert m db b s) := by
  unfold executeLoadDataInfileBatchedInsert
  split
  · rename_i parsed
    exact .panics parsed rfl
  · rename_i parsed
    exact .unparsed _ parsed rfl
  · rename_i table columns parsed
    have registered : Moved s { s with loadDataHandlerSeq := s.loadDataHandlerSeq + 1 } [] :=
      ⟨(List.append_nil _).symm, rfl, rfl, rfl⟩
    dsimp only
    split
    · rename_i made
      have answer := (call_reply made).1
      exact .refused _ _ _ _ _ parsed (by rw [parsed, handsOver, ← answer]; rfl)
        (registered.trans (.call made)) rfl
    · rename_i begun
      obtain ⟨first, position⟩ := call_reply begun
      have opened := registered.trans (.call begun)
      have sequence : s.loadDataHandlerSeq + 1 = _ := (call_seq begun).symm
      split
      · rename_i made
        have answer := (txExec_reply made).1
        rw [position] at answer
        exact .handed _ _ _ _ parsed (by rw [← first]; rfl) (by rw [← answer]; rfl)
          ((opened.trans (.txExec made)).trans (.rollback _)) rfl
      · rename_i loaded
        have answer := (txExec_reply loaded).1
        rw [position] at answer
        have stays : handsOver db s (parseInsertStatement b.first.query) = false := by
          rw [parsed, handsOver, ← first, ← answer]
          rfl
        have ready := opened.trans (.txExec loaded)
        split
        · rename_i made
          exact .refused _ _ _ _ _ parsed stays (ready.trans (.commit made)) rfl
        · rename_i made
          refine .loaded table columns _ parsed (by rw [← answer]; rfl) ?_ rfl
          rw [sequence]
          exact ready.trans (.commit made)

/-! ### Request by request -/

theorem fallbackRows_calls (db : Nat → Reply) (n : Nat) (requests : List WriteRequest) (i : Nat)
    (s : Session) :
    (fallbackRows db n requests i s).calls = s.calls ++ requests.map (preparedCall false) := by
  induction requests generalizing i s with
  | nil => simp [fallbackRows]
  | cons req rest ih =>
    unfold fallbackRows
    split
    · rename_i made
      rw [ih, Session.send, (Moved.dbExec made).calls, List.append_assoc]
      rfl
    · rename_i made
      rw [ih, Session.notify]
      split <;> rw [Session.send, (Moved.dbExec made).calls, List.append_assoc] <;> rfl

theorem fallback_exit (db : Nat → Reply) (b : Batch) (s : Session) :
    (∃ e u, Moved s u [.prepare b.first.query] ∧
      executePreparedBatchFallback db b s = u.sendError b e) ∨
      ∃ u, Moved s u [.prepare b.first.query] ∧
        executePreparedBatchFallback db b s =
          (fallbackRows db b.requests.length b.requests 0 u).close db := by
  unfold executePreparedBatchFallback
  split
  · rename_i made
    exact .inl ⟨_, _, .call made, rfl⟩
  · rename_i made
    exact .inr ⟨_, .call made, rfl⟩

theorem preparedRows_moved (db : Nat → Reply) (hasReturning : Bool) (n : Nat)
    (requests : List WriteRequest) (i : Nat) (s : Session) :
    Moved s (preparedRows db hasReturning n requests i s).2
      (requests.map (preparedCall hasReturning)) := by
  induction requests generalizing i s with
  | nil => exact .refl s
  | cons req rest ih =>
    unfold preparedRows
    split
    rename_i reply next made
    exact (Moved.txExec made).trans (ih (i + 1) next)

def ownResults (db : Nat → Reply) (hasReturning : Bool) (n k : Nat) : List WriteResult :=
  (List.range' k n).map fun j => preparedResult hasReturning n (db j)

inductive PreparedExit (db : Nat → Reply) (b : Batch) (s t : Session) : Prop where
  | refused (e : GoString) (u : Session) (calls : List Call) :
      Moved s u calls → t = u.sendError b e →
      PreparedExit db b s t
  | uncommitted (e : GoString) (u : Session) (calls : List Call) : Moved s u calls →
      t = (u.sendError b e).close db → PreparedExit db b s t
  | rolledBack (u : Session) :
      (ownResults db b.first.hasReturning b.requests.length (s.calls.length + 2)).any
        (·.error.isSome) = true →
      Moved s u
        ([.begin, .prepare b.first.query] ++ b.requests.map (preparedCall b.first.hasReturning) ++
        [.rollback]) →
      t =
        (u.sendAll
          (ownResults db b.first.hasReturning b.requests.length (s.calls.length + 2))).close db →
      PreparedExit db b s t
  | committed (u : Session) :
      (ownResults db b.first.hasReturning b.requests.length (s.calls.length + 2)).any
        (·.error.isSome) = false →
      Moved s u
        ([.begin, .prepare b.first.query] ++ b.requests.map (preparedCall b.first.hasReturning) ++
        [.commit]) →
      t =
        (u.sendAndNotify b
          (ownResults db b.first.hasReturning b.requests.length (s.calls.length + 2))).close db →
      PreparedExit db b s t

theorem prepared_exit (db : Nat → Reply) (b : Batch) (s : Session) :
    PreparedExit db b s (executePreparedBatch db b s) := by
  unfold executePreparedBatch
  split
  · rename_i made
    exact .refused _ _ _ (.call made) rfl
  · rename_i begun
    have opened := Moved.call begun
    split
    · rename_i made
      exact .refused _ _ _ ((opened.trans (.call made)).trans (.rollback _)) rfl
    · rename_i affected lastID returned u prepared
      have ready := opened.trans (.call prepared)
      have executed :=
        ready.trans (preparedRows_moved db b.first.hasReturning b.requests.length b.requests 0 u)
      have results : (preparedRows db b.first.hasReturning b.requests.length b.requests 0 u).1 =
          ownResults db b.first.hasReturning b.requests.length (s.calls.length + 2) := by
        rw [preparedRows_results, ready.count]
        rfl
      dsimp only
      rw [results]
      unfold finishPrepared
      split
      · rename_i failed
        exact .rolledBack _ failed (executed.trans (.rollback _)) rfl
      · rename_i fine
        split
        · rename_i made
          exact .uncommitted _ _ _ (executed.trans (.commit made)) rfl
        · rename_i made
          exact .committed _ (Bool.eq_false_iff.mpr fine) (executed.trans (.commit made)) rfl

/-- The results of a transaction: no value is returned to anyone. -/
structure Plain (n : Nat) (results : List WriteResult) : Prop where
  fine : ∀ r ∈ results, r.error = none
  sized : ∀ r ∈ results, r.batchSize = n
  silent : ∀ r ∈ results, r.returningValues = []

theorem transactionRows_moved {n : Nat} (requests : List WriteRequest) {i : Nat}
    {outcome : Except GoString (List WriteResult)}
    (made : transactionRows db n requests i s = (outcome, t)) :
    (∃ calls, Moved s t calls) ∧ ∀ results, outcome = .ok results →
      Moved s t (requests.map fun req => .txExec req.query req.params) ∧
        results.length = requests.length ∧
        Plain n results := by
  induction requests generalizing i s outcome with
  | nil =>
    cases made
    refine ⟨⟨_, .refl _⟩, ?_⟩
    intro results same
    cases same
    exact ⟨.refl _, rfl, by simp, by simp, by simp⟩
  | cons req rest ih =>
    unfold transactionRows at made
    split at made
    · rename_i answer
      cases made
      exact ⟨⟨_, .txExec answer⟩, by simp⟩
    · rename_i answer
      split at made
      · rename_i later
        cases made
        obtain ⟨⟨calls, moved⟩, -⟩ := ih later
        exact ⟨⟨_, (Moved.txExec answer).trans moved⟩, by simp⟩
      · rename_i later
        cases made
        obtain ⟨⟨calls, moved⟩, success⟩ := ih later
        obtain ⟨all, count, plain⟩ := success _ rfl
        refine ⟨⟨_, (Moved.txExec answer).trans moved⟩, ?_⟩
        intro results same
        cases same
        refine ⟨(Moved.txExec answer).trans all, by rw [List.length_cons, List.length_cons, count],
          ?_⟩
        exact ⟨List.forall_mem_cons.mpr ⟨rfl, plain.fine⟩,
          List.forall_mem_cons.mpr ⟨rfl, plain.sized⟩,
          List.forall_mem_cons.mpr ⟨rfl, plain.silent⟩⟩

theorem transaction_exit (db : Nat → Reply) (b : Batch) (s : Session) :
    (∃ e u calls, Moved s u calls ∧ executeTransactionBatch db b s = u.sendError b e) ∨
      ∃ u calls results, Moved s u calls ∧ results.length = b.requests.length ∧
        Plain b.requests.length results ∧
          executeTransactionBatch db b s = u.sendAndNotify b results := by
  unfold executeTransactionBatch
  split
  · rename_i made
    exact .inl ⟨_, _, _, .call made, rfl⟩
  · rename_i begun
    have opened := Moved.call begun
    split
    · rename_i made
      obtain ⟨⟨calls, moved⟩, -⟩ := transactionRows_moved _ made
      exact .inl ⟨_, _, _, (opened.trans moved).trans (.rollback _), rfl⟩
    · rename_i made
      obtain ⟨moved, count, plain⟩ := (transactionRows_moved _ made).2 _ rfl
      split
      · rename_i committed
        exact .inl ⟨_, _, _, (opened.trans moved).trans (.commit committed), rfl⟩
      · rename_i committed
        exact .inr ⟨_, _, _, (opened.trans moved).trans (.commit committed), count, plain, rfl⟩

end TQDBProxy.WriteBatch
