import Mathlib.Algebra.Ring.Int.Defs
import TQDBProxy.BatchAnswered

/-! The rows that the requests of a batch are told they affected, against the rows that
the database reports. Combined statements and bulk loads count for the whole batch; a
statement that is executed for each request is counted as it is reported, unless it
returns values. -/

namespace TQDBProxy.WriteBatch

/-! ### What the database reports -/

def Reply.affected : Reply → Int
  | .ok affected _ _ => affected
  | .error _ => 0

def Call.reports (c : Call) (reply : Reply) : Int :=
  match c with
  | .exec .. => reply.affected
  | .txExec .. => reply.affected
  | .stmtExec _ => reply.affected
  | .stmtQueryRow _ => reply.affected
  | .loadData .. => reply.affected
  | _ => 0

def reportStep (db : Nat → Reply) (sum : Int) (made : Call × Nat) : Int :=
  if made.1 = .rollback then 0 else sum + made.1.reports (db made.2)

/-- The rows affected by the calls made, as the database reported them. -/
def reported (db : Nat → Reply) (calls : List Call) : Int :=
  calls.zipIdx.foldl (reportStep db) 0

/-- The rows affected by `n` statements, of which the first is call number `k`. -/
def affectedBy (db : Nat → Reply) (k n : Nat) : Int :=
  ((List.range' k n).map fun j => (db j).affected).sum

variable {m : Manager} {db : Nat → Reply} {b : Batch} {s t u : Session} {c : Call}
  {calls rows : List Call} {e : GoString} {results : List WriteResult}

theorem affectedBy_succ (db : Nat → Reply) (k n : Nat) :
    affectedBy db k (n + 1) = (db k).affected + affectedBy db (k + 1) n := by
  rw [affectedBy, List.range'_succ, List.map_cons, List.sum_cons, affectedBy]

theorem affectedBy_concat (db : Nat → Reply) (k n : Nat) :
    affectedBy db k (n + 1) = affectedBy db k n + (db (k + n)).affected := by
  rw [affectedBy, List.range'_1_concat, List.map_append, List.sum_append_int, affectedBy]
  simp

theorem reported_append (db : Nat → Reply) (calls : List Call) (c : Call) :
    reported db (calls ++ [c]) = reportStep db (reported db calls) (c, calls.length) := by
  rw [reported, List.zipIdx_append, List.foldl_append, Nat.zero_add]
  rfl

theorem preparedCall_reports (hasReturning : Bool) (req : WriteRequest) (sum : Int) (k : Nat) :
    reportStep db sum (preparedCall hasReturning req, k) = sum + (db k).affected := by
  cases hasReturning <;> rfl

theorem reported_rows (db : Nat → Reply) (hasReturning : Bool) (requests : List WriteRequest)
    (calls : List Call) :
    reported db (calls ++ requests.map (preparedCall hasReturning)) =
      reported db calls + affectedBy db calls.length requests.length := by
  induction requests generalizing calls with
  | nil => simp [affectedBy]
  | cons req requests ih =>
    have rest := ih (calls ++ [preparedCall hasReturning req])
    rw [List.append_assoc, List.singleton_append, reported_append, preparedCall_reports,
      List.length_append, List.length_singleton] at rest
    rw [List.map_cons, rest, List.length_cons, affectedBy_succ, Int.add_assoc]

/-! ### What the requests are told -/

def told (t : Session) : Int := (t.delivered.map (·.2.affectedRows)).sum

structure Succeeded (t : Session) : Prop where
  ran : t.panicked = false
  fine : ∀ p ∈ t.delivered, p.2.error = none

def Conserved (db : Nat → Reply) (t : Session) : Prop := told t = reported db t.calls

theorem told_sendAll (silent : Silent s) :
    told (s.sendAll results) = (results.map (·.affectedRows)).sum := by
  rw [told, sendAll_delivered silent, List.map_map]
  conv_rhs => rw [← List.zipIdx_map_fst 0 results, List.map_map]
  rfl

theorem told_sendAndNotify (silent : Silent s) :
    told (s.sendAndNotify b results) = (results.map (·.affectedRows)).sum := told_sendAll silent

/-- Every request is told `count`. -/
theorem told_each {α : Type} {items : List α} {result : α → WriteResult} {count : Int}
    (silent : Silent s) (all : items.length = b.requests.length)
    (each : ∀ a, (result a).affectedRows = count) :
    told (s.sendAndNotify b (items.map result)) = b.requests.length * count := by
  have same : (items.map result).map (·.affectedRows) = List.replicate items.length count := by
    rw [List.map_map, List.eq_replicate_iff]
    exact ⟨List.length_map _, List.forall_mem_map.mpr fun a _ => each a⟩
  rw [told_sendAndNotify silent, same, List.sum_replicate_int, all]

theorem not_succeeded_sendError (silent : Silent s) : ¬ Succeeded (s.sendError b e) := by
  intro success
  have first : (b.requests.map fun _ => WriteResult.failed (.database e))[0]? =
      some (.failed (.database e)) := by
    have bound : 0 < b.requests.length := Nat.lt_of_lt_of_le Nat.two_pos b.several
    rw [List.getElem?_map, List.getElem?_eq_getElem bound]
    rfl
  cases success.fine _ ((mem_sendAll silent).mpr first)

theorem fallbackRows_told (db : Nat → Reply) (n : Nat) (requests : List WriteRequest) (i : Nat)
    (s : Session) :
    told (fallbackRows db n requests i s) =
      told s + affectedBy db s.calls.length requests.length := by
  induction requests generalizing i s with
  | nil => simp [fallbackRows, affectedBy]
  | cons req rest ih =>
    have answered (r : WriteResult) (next : Session) (moved : Moved s next [preparedCall false req])
        (report : r.affectedRows = (db s.calls.length).affected) :
        told (next.send i r) = told s + (db s.calls.length).affected := by
      rw [told, Session.send, moved.delivered, List.map_append, List.sum_append_int, ← told,
        List.map_singleton, report]
      simp
    have tail (next : Session) (calls : next.calls = s.calls ++ [preparedCall false req])
        (so_far : told next = told s + (db s.calls.length).affected) :
        told (fallbackRows db n rest (i + 1) next) =
          told s + affectedBy db s.calls.length (req :: rest).length := by
      rw [ih, calls, so_far, List.length_append, List.length_singleton, List.length_cons,
        affectedBy_succ, Int.add_assoc]
    unfold fallbackRows
    split
    · rename_i e next made
      have moved := Moved.dbExec made
      have reply := dbExec_reply made
      exact tail _ moved.calls (answered _ _ moved (by rw [← reply]; rfl))
    · rename_i affected lastID returned next made
      have moved := Moved.dbExec made
      have reply := dbExec_reply made
      have sent := answered { affectedRows := affected, lastInsertId := lastID, batchSize := n }
        next moved (by rw [← reply]; rfl)
      refine tail _ ?_ ?_
      · unfold Session.notify
        split <;> exact moved.calls
      · unfold Session.notify
        split <;> exact sent

/-! ### The strategies -/

theorem conserved_fallback (silent : Silent s) (nothing : reported db s.calls = 0)
    (success : Succeeded (executePreparedBatchFallback db b s)) :
    Conserved db (executePreparedBatchFallback db b s) := by
  obtain ⟨e, u, moved, ended⟩ | ⟨u, moved, ended⟩ := fallback_exit db b s
  · rw [ended] at success
    exact absurd success (not_succeeded_sendError (silent.moved moved))
  · have ready := silent.moved moved
    have start : told u = 0 := by rw [told, ready.delivered]; rfl
    have before : reported db u.calls = 0 := by
      rw [moved.calls, reported_append, nothing]
      rfl
    have calls : ((fallbackRows db b.requests.length b.requests 0 u).close db).calls =
        u.calls ++ b.requests.map (preparedCall false) ++ [.stmtClose] := by
      rw [Session.close, Session.call, fallbackRows_calls]
    have closed : told ((fallbackRows db b.requests.length b.requests 0 u).close db) =
        told (fallbackRows db b.requests.length b.requests 0 u) := rfl
    rw [ended, Conserved, closed, fallbackRows_told, calls, reported_append, reported_rows, start,
      before]
    simp [reportStep, Call.reports]

/-- What the database has to report when call number `k` may be the combined INSERT: one row
for each request. A text without VALUES is executed request by request. -/
def CombinedReports (db : Nat → Reply) (b : Batch) (k : Nat) : Prop :=
  (valuesIdx b.first.query).isSome = true → (db k).affected = b.requests.length

theorem conserved_multiRow_iff (silent : Silent s) (nothing : reported db s.calls = 0)
    (success : Succeeded (executeTrueBatchedInsertMultiRow m db b s)) :
    Conserved db (executeTrueBatchedInsertMultiRow m db b s) ↔
      CombinedReports db b s.calls.length := by
  cases multiRow_exit m db b s with
  | panics built ended =>
    rw [ended] at success
    cases success.ran
  | fallback built ended =>
    have absent : valuesIdx b.first.query = none := by
      cases found : valuesIdx b.first.query with
      | none => rfl
      | some cut =>
        rw [multiRow, found] at built
        dsimp only at built
        split at built
        · cases built
        · split at built <;> cases built
    rw [ended] at success ⊢
    refine iff_of_true (conserved_fallback silent nothing success) fun found => ?_
    rw [absent] at found
    cases found
  | refused text args e u built moved _ ended =>
    rw [ended] at success
    exact absurd success (not_succeeded_sendError (silent.moved moved))
  | accepted text args affected rawID returned u built moved _ ended =>
    obtain ⟨cut, found, -⟩ := multiRow_cut built
    have sum : told (u.sendAndNotify b (rowResults m b rawID)) = b.requests.length * 1 :=
      told_each (silent.moved moved) List.length_range fun _ => rfl
    have calls : (u.sendAndNotify b (rowResults m b rawID)).calls = s.calls ++ [.exec text args] :=
      moved.calls
    have report : reported db (s.calls ++ [.exec text args]) = (db s.calls.length).affected := by
      rw [reported_append, nothing]
      exact Int.zero_add _
    rw [ended, Conserved, sum, calls, report, Int.mul_one, CombinedReports, found]
    exact ⟨fun same _ => same.symm, fun same => (same rfl).symm⟩

def ParsedInsert.isOk : ParsedInsert → Bool
  | .ok .. => true
  | _ => false

theorem conserved_bulk_iff {load : GoString → List GoString → List Call} {affected : Int}
    (count : ∀ table columns, reported db (load table columns) = affected)
    (exit : BulkExit m db b load {} t) (success : Succeeded t) :
    Conserved db t ↔
      if (parseInsertStatement b.first.query).isOk then
        if (db 1).succeeds then affected = b.requests.length else CombinedReports db b 3
      else CombinedReports db b 0 := by
  have silent : Silent {} := ⟨rfl, rfl⟩
  cases exit with
  | panics parsed ended =>
    rw [ended] at success
    cases success.ran
  | unparsed e parsed ended =>
    rw [ended] at success ⊢
    rw [parsed]
    exact conserved_multiRow_iff silent rfl success
  | handed table columns call u parsed begun refused moved ended =>
    have calls : u.calls = [.begin, call] ++ [.rollback] := moved.calls
    have nothing : reported db u.calls = 0 := by
      rw [calls, reported_append]
      exact if_pos rfl
    have stop : (db 1).succeeds = false := refused
    rw [ended] at success ⊢
    rw [parsed, stop, conserved_multiRow_iff (silent.moved moved) nothing success, calls]
    rfl
  | refused table columns e u calls parsed stays moved ended =>
    rw [ended] at success
    exact absurd success (not_succeeded_sendError (silent.moved moved))
  | loaded table columns u parsed accepted moved ended =>
    have sum : told (u.sendAndNotify b (bulkResults b)) = b.requests.length * 1 :=
      told_each (silent.moved moved) rfl fun _ => rfl
    have calls : (u.sendAndNotify b (bulkResults b)).calls = load table columns := moved.calls
    have through : (db 1).succeeds = true := accepted
    rw [ended, Conserved, sum, calls, count, Int.mul_one, parsed, through]
    exact eq_comm

/-- The INSERT of the batch can be sent as a COPY or a LOAD DATA. -/
def bulkLoads (m : Manager) (b : Batch) : Bool :=
  m.useCopy && b.first.params.length != 0 && allParamsAreSimple b.requests &&
    (parseInsertStatement b.first.query).isOk

/-- The rows reported for a bulk load: COPY is told each row and the end of the rows. -/
def loadedRows (db : Nat → Reply) (b : Batch) : Int :=
  if containsPostgresPlaceholder b.first.query then affectedBy db 2 (b.requests.length + 1)
  else (db 1).affected

/-- What the database has to report for an INSERT: one row for each request, from the bulk
load or, where there is none or it is refused, from the combined statement. -/
def InsertReports (m : Manager) (db : Nat → Reply) (b : Batch) : Prop :=
  if bulkLoads m b then
    if (db 1).succeeds then loadedRows db b = b.requests.length else CombinedReports db b 3
  else CombinedReports db b 0

theorem conserved_insert_iff (success : Succeeded (executeTrueBatchedInsert m db b {})) :
    Conserved db (executeTrueBatchedInsert m db b {}) ↔ InsertReports m db b := by
  unfold executeTrueBatchedInsert at success ⊢
  unfold InsertReports bulkLoads loadedRows
  by_cases bulk : (m.useCopy && b.first.params.length != 0 && allParamsAreSimple b.requests) = true
  · rw [if_pos bulk] at success ⊢
    rw [bulk, Bool.true_and]
    by_cases postgres : containsPostgresPlaceholder b.first.query = true
    · rw [if_pos postgres] at success ⊢
      rw [if_pos postgres]
      refine conserved_bulk_iff (fun table columns => ?_) (copy_exit m db b {}) success
      have calls : copyCalls b table columns = [.begin, .copyIn table columns] ++
          b.requests.map (preparedCall false) ++ [.stmtExec []] ++ [.stmtClose] ++ [.commit] := by
        simp [copyCalls]
      rw [calls, reported_append, reported_append, reported_append, reported_rows,
        affectedBy_concat, Nat.add_comm 2]
      simp [reportStep, Call.reports, reported]
    · rw [if_neg postgres] at success ⊢
      rw [if_neg postgres]
      refine conserved_bulk_iff (fun table columns => ?_) (loadData_exit m db b {}) success
      simp [loadDataCalls, reported, reportStep, Call.reports]
  · rw [if_neg bulk] at success ⊢
    rw [Bool.eq_false_iff.mpr bulk, Bool.false_and, if_neg Bool.false_ne_true]
    exact conserved_multiRow_iff ⟨rfl, rfl⟩ rfl success

theorem all_told_iff (b : Batch) (affected : Int) :
    b.requests.length * affected = affected ↔ affected = 0 := by
  have several := b.several
  constructor
  · intro all
    have rest : ((b.requests.length : Int) - 1) * affected = 0 := by
      rw [Int.sub_mul, all, Int.one_mul, Int.sub_self]
    rcases Int.mul_eq_zero.mp rest with one | nothing
    · omega
    · exact nothing
  · intro nothing
    rw [nothing, Int.mul_zero]

theorem conserved_delete_iff (success : Succeeded (executeTrueBatchedDelete db b {})) :
    Conserved db (executeTrueBatchedDelete db b {}) ↔ (db 0).affected = 0 := by
  have silent : Silent {} := ⟨rfl, rfl⟩
  cases delete_exit db b {} with
  | panics built ended =>
    rw [ended] at success
    cases success.ran
  | refused text args e u built moved _ ended =>
    rw [ended] at success
    exact absurd success (not_succeeded_sendError (silent.moved moved))
  | accepted text args affected lastID returned u built moved reply ended =>
    have calls : (u.sendAndNotify b (deleteResults b affected)).calls = [.exec text args] :=
      moved.calls
    have answer : db 0 = .ok affected lastID returned := reply
    have sum : told (u.sendAndNotify b (deleteResults b affected)) = b.requests.length * affected :=
      told_each (silent.moved moved) rfl fun _ => rfl
    have report : reported db [.exec text args] = affected := by
      simp [reported, reportStep, Call.reports, answer, Reply.affected]
    rw [ended, Conserved, sum, calls, report, answer]
    exact all_told_iff b affected

theorem sum_returning {n : Nat} {positions : List Nat}
    (fine : ∀ r ∈ positions.map fun j => preparedResult true n (db j), r.error = none) :
    ((positions.map fun j => preparedResult true n (db j)).map (·.affectedRows)).sum =
      positions.length := by
  induction positions with
  | nil => rfl
  | cons j positions ih =>
    rw [List.map_cons, List.forall_mem_cons] at fine
    rw [List.map_cons, List.map_cons, List.sum_cons, ih fine.2, List.length_cons, Int.natCast_succ,
      Int.add_comm]
    have first := fine.1
    cases answer : db j with
    | error e =>
      rw [answer] at first
      cases first
    | ok => rfl

theorem sum_ownResults (db : Nat → Reply) (n k : Nat) :
    ((ownResults db false n k).map (·.affectedRows)).sum = affectedBy db k n := by
  rw [ownResults, List.map_map, affectedBy]
  congr 1
  refine List.map_congr_left fun j _ => ?_
  rw [Function.comp_apply]
  cases db j <;> rfl

theorem conserved_prepared_iff (success : Succeeded (executePreparedBatch db b {})) :
    Conserved db (executePreparedBatch db b {}) ↔
      (b.first.hasReturning = true →
        affectedBy db 2 b.requests.length = b.requests.length) := by
  have silent : Silent {} := ⟨rfl, rfl⟩
  cases prepared_exit db b {} with
  | refused e u calls moved ended =>
    rw [ended] at success
    exact absurd success (not_succeeded_sendError (silent.moved moved))
  | uncommitted e u calls moved ended =>
    rw [ended] at success
    exact absurd ⟨success.ran, success.fine⟩
      (not_succeeded_sendError (b := b) (e := e) (silent.moved moved))
  | rolledBack u failed moved ended =>
    rw [ended] at success
    obtain ⟨r, mem, failed⟩ := List.any_eq_true.mp failed
    obtain ⟨i, bound, same⟩ := List.mem_iff_getElem.mp mem
    have sent :=
      (mem_sendAll (silent.moved moved)).mpr (List.getElem?_eq_some_iff.mpr ⟨bound, same⟩)
    rw [success.fine _ sent] at failed
    cases failed
  | committed u none_failed moved ended =>
    have two : ({} : Session).calls.length + 2 = 2 := rfl
    rw [two] at none_failed ended
    have calls : ((u.sendAndNotify b
        (ownResults db b.first.hasReturning b.requests.length 2)).close db).calls =
        [.begin, .prepare b.first.query] ++ b.requests.map (preparedCall b.first.hasReturning) ++
          [.commit] ++ [.stmtClose] := congrArg (· ++ [Call.stmtClose]) moved.calls
    have report : reported db ([.begin, .prepare b.first.query] ++
        b.requests.map (preparedCall b.first.hasReturning) ++ [.commit] ++ [.stmtClose]) =
        affectedBy db 2 b.requests.length := by
      rw [reported_append, reported_append, reported_rows]
      simp [reportStep, Call.reports, reported]
    have sum : told ((u.sendAndNotify b
        (ownResults db b.first.hasReturning b.requests.length 2)).close db) =
        ((ownResults db b.first.hasReturning b.requests.length 2).map (·.affectedRows)).sum :=
      told_sendAndNotify (b := b) (silent.moved moved)
    have fine := no_error none_failed
    rw [ended, Conserved, sum, calls, report]
    cases returning : b.first.hasReturning with
    | true =>
      rw [returning] at fine
      rw [ownResults, sum_returning fine, List.length_range']
      exact ⟨fun same _ => same.symm, fun same => (same rfl).symm⟩
    | false => exact iff_of_true (sum_ownResults db _ 2) fun impossible => by cases impossible

/-! ### The batch -/

def insertsCombined (b : Batch) : Bool := !b.first.hasReturning && isBatchableInsert b.first.query

theorem executeBatchedWrites_insert (same : allSame b = true) (insert : insertsCombined b = true) :
    executeBatchedWrites m db b s = executeTrueBatchedInsert m db b s := by
  rw [executeBatchedWrites, if_pos same]
  exact if_pos insert

theorem executeBatchedWrites_other (same : allSame b = true) (insert : insertsCombined b = false) :
    executeBatchedWrites m db b s =
      match isBatchableDelete b.first.query with
      | none => s.crash
      | some true => executeTrueBatchedDelete db b s
      | some false => executePreparedBatch db b s := by
  rw [executeBatchedWrites, if_pos same]
  exact if_neg (Bool.eq_false_iff.mp insert)

/-- A batch of one text that succeeds tells its requests as many rows as the database reports
exactly when, for an INSERT or a statement that returns values, one row is reported for each
request, and for a combined DELETE none. Other statements are counted request by request. -/
theorem counts_conserved_iff (m : Manager) (db : Nat → Reply) (b : Batch) (same : allSame b = true)
    (success : Succeeded (executeBatchedWrites m db b {})) :
    Conserved db (executeBatchedWrites m db b {}) ↔
      if insertsCombined b then InsertReports m db b
      else if isBatchableDelete b.first.query = some true then (db 0).affected = 0
      else b.first.hasReturning = true →
        affectedBy db 2 b.requests.length = b.requests.length := by
  cases insert : insertsCombined b with
  | true =>
    rw [executeBatchedWrites_insert same insert] at success ⊢
    exact conserved_insert_iff success
  | false =>
    rw [executeBatchedWrites_other same insert] at success ⊢
    rw [if_neg Bool.false_ne_true]
    cases delete : isBatchableDelete b.first.query with
    | none =>
      rw [delete] at success
      cases success.ran
    | some deletes =>
      rw [delete] at success
      cases deletes with
      | true => exact conserved_delete_iff success
      | false => exact conserved_prepared_iff success

def deletes : Batch where
  requests := [{ query := lit "DELETE FROM t WHERE id = ?", params := [.int 1] },
    { query := lit "DELETE FROM t WHERE id = ?", params := [.int 2] }]
  several := by decide

/-- Each of the two is told that it deleted two rows. -/
theorem deletes_not_conserved :
    let t := executeBatchedWrites {} (fun _ => .ok 2 0 0) deletes {}
    allSame deletes = true ∧
      t.delivered =
        [(0, { affectedRows := 2, batchSize := 2 }), (1, { affectedRows := 2, batchSize := 2 })] ∧
      t.calls = [.exec (lit "DELETE FROM t WHERE id IN (?,?)") [.int 1, .int 2]] ∧
      told t = 4 ∧ reported (fun _ => .ok 2 0 0) t.calls = 2 ∧
      ¬ Conserved (fun _ => .ok 2 0 0) t := by
  unfold Conserved
  decide +kernel

/-- An update in a batch of two is told what it did. -/
theorem updates_conserved :
    Succeeded (executeBatchedWrites {} (fun _ => .ok 1 0 0) updates {}) ∧
      Conserved (fun _ => .ok 1 0 0) (executeBatchedWrites {} (fun _ => .ok 1 0 0) updates {}) := by
  have success : Succeeded (executeBatchedWrites {} (fun _ => .ok 1 0 0) updates {}) :=
    ⟨by decide +kernel, by decide +kernel⟩
  refine ⟨success, (counts_conserved_iff {} _ updates (by decide +kernel) success).mpr ?_⟩
  rw [if_neg (by decide +kernel), if_neg (by decide +kernel)]
  decide +kernel

end TQDBProxy.WriteBatch
