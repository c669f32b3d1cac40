import TQDBProxy.BatchExits
import TQDBProxy.UpperOffsets

/-! Every request of a batch gets one result, and its callback runs at most once and only
for a success. The only way out of a strategy without results is a slice past the end of
the text: the offset was found in the upper case, which may be longer. -/

namespace TQDBProxy.WriteBatch

structure AnsweredOnce (b : Batch) (t : Session) : Prop where
  once : (t.delivered.map (·.1)).Perm b.indices
  sized : ∀ i r, (i, r) ∈ t.delivered → r.error = none → r.batchSize = b.requests.length
  notifiedOnce : (t.notified.map (·.1)).Nodup
  notified : ∀ i n, (i, n) ∈ t.notified →
    n = b.requests.length ∧ ∃ r, (i, r) ∈ t.delivered ∧ r.error = none

structure Silent (s : Session) : Prop where
  delivered : s.delivered = []
  notified : s.notified = []

variable {m : Manager} {db : Nat → Reply} {b : Batch} {s t u : Session} {calls : List Call}
  {e : GoString}
  {results : List WriteResult}

theorem Silent.moved (silent : Silent s) (moved : Moved s t calls) : Silent t :=
  ⟨moved.delivered.trans silent.delivered, moved.notified.trans silent.notified⟩

/-! ### Results that are sent together -/

theorem sendAll_delivered (silent : Silent s) :
    (s.sendAll results).delivered = results.zipIdx.map fun (r, i) => (i, r) := by
  rw [Session.sendAll, silent.delivered, List.nil_append]

theorem mem_sendAll (silent : Silent s) {i : Nat} {r : WriteResult} :
    (i, r) ∈ (s.sendAll results).delivered ↔ results[i]? = some r := by
  rw [sendAll_delivered silent, List.mem_map]
  constructor
  · intro sent
    obtain ⟨⟨r', i'⟩, mem, same⟩ := sent
    cases same
    exact List.mk_mem_zipIdx_iff_getElem?.mp mem
  · intro at_i
    exact ⟨(r, i), List.mk_mem_zipIdx_iff_getElem?.mpr at_i, rfl⟩

theorem sendAll_indices (silent : Silent s) :
    (s.sendAll results).delivered.map (·.1) = List.range results.length := by
  rw [sendAll_delivered silent, List.map_map, List.range_eq_range', ← List.zipIdx_map_snd 0 results]
  rfl

theorem answered_sendAll (silent : Silent s) (count : results.length = b.requests.length)
    (sized : ∀ r ∈ results, r.error = none → r.batchSize = b.requests.length) :
    AnsweredOnce b (s.sendAll results) where
  once := by
    rw [sendAll_indices silent, count]
    exact .refl _
  sized i r sent := sized r (List.mem_of_getElem? ((mem_sendAll silent).mp sent))
  notifiedOnce := by
    rw [Session.sendAll, silent.notified]
    exact .nil
  notified i n mem := by
    rw [Session.sendAll, silent.notified] at mem
    cases mem

theorem answered_sendError (silent : Silent s) : AnsweredOnce b (s.sendError b e) := by
  refine answered_sendAll silent (List.length_map _) ?_
  intro r mem fine
  obtain ⟨_, _, rfl⟩ := List.mem_map.mp mem
  cases fine

theorem answered_sendAndNotify (silent : Silent s) (count : results.length = b.requests.length)
    (fine : ∀ r ∈ results, r.error = none)
    (sized : ∀ r ∈ results, r.batchSize = b.requests.length) :
    AnsweredOnce b (s.sendAndNotify b results) := by
  have sent := answered_sendAll (b := b) silent count fun r mem _ => sized r mem
  refine ⟨sent.once, sent.sized, ?_, ?_⟩
  · rw [Session.sendAndNotify, silent.notified, List.nil_append, List.map_map]
    have indices : (b.requests.zipIdx.map (·.2)).Nodup := by
      rw [List.zipIdx_map_snd]
      exact List.nodup_range'
    exact indices.sublist ((List.filter_sublist).map _)
  · intro i n mem
    rw [Session.sendAndNotify, silent.notified, List.nil_append] at mem
    obtain ⟨⟨req, j⟩, inside, same⟩ := List.mem_map.mp mem
    cases same
    have position := List.mk_mem_zipIdx_iff_getElem?.mp (List.mem_filter.mp inside).1
    obtain ⟨bound, _⟩ := List.getElem?_eq_some_iff.mp position
    rw [← count] at bound
    refine ⟨rfl, results[i], ?_, fine _ (List.getElem_mem bound)⟩
    exact (mem_sendAll silent).mpr (List.getElem?_eq_getElem bound)

theorem answered_each {α : Type} {items : List α} {result : α → WriteResult} (silent : Silent s)
    (count : items.length = b.requests.length) (fine : ∀ a, (result a).error = none)
    (sized : ∀ a, (result a).batchSize = b.requests.length) :
    AnsweredOnce b (s.sendAndNotify b (items.map result)) := by
  refine answered_sendAndNotify silent ((List.length_map _).trans count) ?_ ?_
  · exact List.forall_mem_map.mpr fun a _ => fine a
  · exact List.forall_mem_map.mpr fun a _ => sized a

theorem answered_close (answered : AnsweredOnce b t) : AnsweredOnce b (t.close db) :=
  ⟨answered.once, answered.sized, answered.notifiedOnce, answered.notified⟩

/-! ### Results that are sent one by one -/

/-- The first `i` requests of a batch of `n` have been answered. -/
structure AnsweredUpTo (n i : Nat) (t : Session) : Prop where
  indices : t.delivered.map (·.1) = List.range i
  sized : ∀ j r, (j, r) ∈ t.delivered → r.error = none → r.batchSize = n
  notifiedOnce : (t.notified.map (·.1)).Nodup
  notified : ∀ j k, (j, k) ∈ t.notified → k = n ∧ ∃ r, (j, r) ∈ t.delivered ∧ r.error = none

namespace AnsweredUpTo

variable {n i : Nat} {r : WriteResult}

theorem moved (answered : AnsweredUpTo n i s) (moved : Moved s t calls) : AnsweredUpTo n i t := by
  obtain ⟨indices, sized, once, notified⟩ := answered
  exact ⟨by rwa [moved.delivered], by rwa [moved.delivered], by rwa [moved.notified],
    by rwa [moved.notified, moved.delivered]⟩

theorem send (answered : AnsweredUpTo n i s) (sized : r.error = none → r.batchSize = n) :
    AnsweredUpTo n (i + 1) (s.send i r) where
  indices := by
    rw [Session.send, List.map_append, answered.indices, List.range_succ]
    rfl
  sized j r' mem := by
    rcases List.mem_append.mp mem with old | new
    · exact answered.sized j r' old
    · cases List.mem_singleton.mp new
      exact sized
  notifiedOnce := answered.notifiedOnce
  notified j k mem := by
    obtain ⟨same, r', sent, fine⟩ := answered.notified j k mem
    exact ⟨same, r', List.mem_append_left _ sent, fine⟩

theorem notify (answered : AnsweredUpTo n i s) (req : WriteRequest) (sized : r.batchSize = n)
    (fine : r.error = none) : AnsweredUpTo n (i + 1) ((s.send i r).notify req i n) := by
  have sent := answered.send (r := r) fun _ => sized
  unfold Session.notify
  split
  · refine ⟨sent.indices, sent.sized, ?_, ?_⟩
    · rw [List.map_append]
      refine List.nodup_append.mpr ⟨answered.notifiedOnce, List.pairwise_singleton _ i, ?_⟩
      intro j mem j' same
      obtain ⟨⟨k, count⟩, notified, rfl⟩ := List.mem_map.mp mem
      obtain ⟨_, r', delivered, _⟩ := answered.notified k count notified
      have earlier : k ∈ s.delivered.map (·.1) := List.mem_map.mpr ⟨_, delivered, rfl⟩
      rw [answered.indices, List.mem_range] at earlier
      rw [List.mem_singleton.mp same]
      exact Nat.ne_of_lt earlier
    · intro j k mem
      rcases List.mem_append.mp mem with old | new
      · exact sent.notified j k old
      · cases List.mem_singleton.mp new
        exact ⟨rfl, r, List.mem_append_right _ (List.mem_singleton_self _), fine⟩
  · exact sent

theorem fallbackRows (db : Nat → Reply) (requests : List WriteRequest)
    (answered : AnsweredUpTo n i s) :
    AnsweredUpTo n (i + requests.length) (fallbackRows db n requests i s) := by
  induction requests generalizing i s with
  | nil => exact answered
  | cons req rest ih =>
    rw [List.length_cons, Nat.add_comm rest.length, ← Nat.add_assoc]
    unfold WriteBatch.fallbackRows
    split
    · rename_i made
      refine ih ((answered.moved (.dbExec made)).send ?_)
      exact fun fine => by cases fine
    · rename_i made
      exact ih ((answered.moved (.dbExec made)).notify req rfl rfl)

end AnsweredUpTo

theorem answered_fallback (silent : Silent s) :
    AnsweredOnce b (executePreparedBatchFallback db b s) := by
  obtain ⟨e, u, moved, ended⟩ | ⟨u, moved, ended⟩ := fallback_exit db b s
  · rw [ended]
    exact answered_sendError (silent.moved moved)
  · have ready := silent.moved moved
    have start : AnsweredUpTo b.requests.length 0 u := by
      refine ⟨by rw [ready.delivered]; rfl, ?_, by rw [ready.notified]; exact .nil, ?_⟩
      · rw [ready.delivered]
        exact fun _ _ mem => by cases mem
      · rw [ready.notified]
        exact fun _ _ mem => by cases mem
    have rows := start.fallbackRows db b.requests
    rw [Nat.zero_add] at rows
    rw [ended]
    exact answered_close ⟨by rw [rows.indices]; exact .refl _, rows.sized, rows.notifiedOnce,
      rows.notified⟩

/-! ### The strategies -/

/-- Nobody is answered where the strategy panics, and otherwise everybody is. -/
def Ends (b : Batch) (panics : Bool) (t : Session) : Prop :=
  if panics then t.delivered = [] else AnsweredOnce b t

theorem Ends.iff {panics : Bool} (ends : Ends b panics t) : AnsweredOnce b t ↔ panics = false := by
  cases panics with
  | false => exact iff_of_true ends rfl
  | true =>
    refine iff_of_false (fun answered => ?_) Bool.noConfusion
    have nobody : t.delivered = [] := ends
    have nil := answered.once.length_eq
    rw [nobody, Batch.indices, List.length_range] at nil
    exact absurd b.several (by rw [← nil]; decide)

theorem ends_crash (silent : Silent s) : Ends b true s.crash := silent.delivered

def slicesBeyond (site : Site) (query : GoString) : Bool := (site.search query).any Search.beyond

theorem ends_multiRow (silent : Silent s) :
    Ends b (slicesBeyond .executeTrueBatchedInsertMultiRow b.first.query)
      (executeTrueBatchedInsertMultiRow m db b s) := by
  have panics := multiRow_panics_iff b.first.query b.paramLists
  have inside {outcome : MultiRow} (built : multiRow b.first.query b.paramLists = outcome)
      (other : outcome ≠ .panics) :
        slicesBeyond .executeTrueBatchedInsertMultiRow b.first.query = false := by
    rw [slicesBeyond, ← Bool.not_eq_true, ← panics, built]
    exact other
  cases multiRow_exit m db b s with
  | panics built ended =>
    rw [slicesBeyond, panics.mp built, ended]
    exact ends_crash silent
  | fallback built ended =>
    rw [inside built MultiRow.noConfusion, ended]
    exact answered_fallback silent
  | refused text args e u built moved _ ended =>
    rw [inside built MultiRow.noConfusion, ended]
    exact answered_sendError (silent.moved moved)
  | accepted text args affected rawID returned u built moved _ ended =>
    rw [inside built MultiRow.noConfusion, ended]
    exact answered_each (silent.moved moved) List.length_range (fun _ => rfl) fun _ => rfl

/-- A bulk load panics on its own search, or where it hands over to the combined INSERT. -/
def bulkPanics (db : Nat → Reply) (s : Session) (query : GoString) : Bool :=
  slicesBeyond .parseInsertStatement query ||
    (handsOver db s (parseInsertStatement query) && slicesBeyond .executeTrueBatchedInsertMultiRow
      query)

theorem ends_bulk {load : GoString → List GoString → List Call} (silent : Silent s)
    (exit : BulkExit m db b load s t) :
    Ends b (bulkPanics db s b.first.query) t := by
  have panics := parseInsertStatement_panics_iff b.first.query
  have inside {parsed : ParsedInsert} (is : parseInsertStatement b.first.query = parsed)
      (other : parsed ≠ .panics) : slicesBeyond .parseInsertStatement b.first.query = false := by
    rw [slicesBeyond, ← Bool.not_eq_true, ← panics, is]
    exact other
  cases exit with
  | panics parsed ended =>
    rw [bulkPanics, slicesBeyond, panics.mp parsed, Bool.true_or, ended]
    exact ends_crash silent
  | unparsed e parsed ended =>
    have handed : handsOver db s (parseInsertStatement b.first.query) = true := by rw [parsed]; rfl
    rw [bulkPanics, inside parsed ParsedInsert.noConfusion, handed, Bool.false_or, Bool.true_and,
      ended]
    exact ends_multiRow silent
  | handed table columns call u parsed begun refused moved ended =>
    have handed : handsOver db s (parseInsertStatement b.first.query) = true := by
      rw [parsed, handsOver, begun, refused]
      rfl
    rw [bulkPanics, inside parsed ParsedInsert.noConfusion, handed, Bool.false_or, Bool.true_and,
      ended]
    exact ends_multiRow (silent.moved moved)
  | refused table columns e u calls parsed stays moved ended =>
    rw [bulkPanics, inside parsed ParsedInsert.noConfusion, stays, Bool.false_or, Bool.false_and,
      ended]
    exact answered_sendError (silent.moved moved)
  | loaded table columns u parsed accepted moved ended =>
    have stays : handsOver db s (parseInsertStatement b.first.query) = false := by
      rw [parsed, handsOver, accepted, Bool.not_true, Bool.and_false]
    rw [bulkPanics, inside parsed ParsedInsert.noConfusion, stays, Bool.false_or, Bool.false_and,
      ended]
    exact answered_each (silent.moved moved) rfl (fun _ => rfl) fun _ => rfl

def insertPanics (m : Manager) (db : Nat → Reply) (b : Batch) : Bool :=
  if m.useCopy && b.first.params.length != 0 && allParamsAreSimple b.requests then
    bulkPanics db {} b.first.query
  else slicesBeyond .executeTrueBatchedInsertMultiRow b.first.query

theorem ends_insert : Ends b (insertPanics m db b) (executeTrueBatchedInsert m db b {}) := by
  have silent : Silent {} := ⟨rfl, rfl⟩
  unfold executeTrueBatchedInsert insertPanics
  split
  · split
    · exact ends_bulk silent (copy_exit m db b {})
    · exact ends_bulk silent (loadData_exit m db b {})
  · exact ends_multiRow silent

theorem ends_delete (silent : Silent s) :
    Ends b (batchedDelete b).isNone (executeTrueBatchedDelete db b s) := by
  cases delete_exit db b s with
  | panics built ended =>
    rw [built, ended]
    exact ends_crash silent
  | refused text args e u built moved _ ended =>
    rw [built, ended]
    exact answered_sendError (silent.moved moved)
  | accepted text args affected lastID returned u built moved _ ended =>
    rw [built, ended]
    exact answered_each (silent.moved moved) rfl (fun _ => rfl) fun _ => rfl

theorem length_ownResults (db : Nat → Reply) (hasReturning : Bool) (n k : Nat) :
    (ownResults db hasReturning n k).length = n := by
  rw [ownResults, List.length_map, List.length_range']

theorem ownResults_sized (db : Nat → Reply) (hasReturning : Bool) (n k : Nat) :
    ∀ r ∈ ownResults db hasReturning n k, r.error = none → r.batchSize = n := by
  intro r mem fine
  obtain ⟨j, _, rfl⟩ := List.mem_map.mp mem
  cases reply : db j with
  | error e =>
    rw [reply] at fine
    cases fine
  | ok affected lastID returned => cases hasReturning <;> rfl

theorem no_error (none_failed : results.any (·.error.isSome) = false) :
    ∀ r ∈ results, r.error = none := by
  intro r mem
  have whole := List.any_eq_false.mp none_failed r mem
  rwa [Bool.not_eq_true, Option.isSome_eq_false_iff, Option.isNone_iff_eq_none] at whole

theorem answered_prepared (silent : Silent s) : AnsweredOnce b (executePreparedBatch db b s) := by
  have count := length_ownResults db b.first.hasReturning b.requests.length (s.calls.length + 2)
  have sized := ownResults_sized db b.first.hasReturning b.requests.length (s.calls.length + 2)
  cases prepared_exit db b s with
  | refused e u calls moved ended =>
    rw [ended]
    exact answered_sendError (silent.moved moved)
  | uncommitted e u calls moved ended =>
    rw [ended]
    exact answered_close (answered_sendError (silent.moved moved))
  | rolledBack u failed moved ended =>
    rw [ended]
    exact answered_close (answered_sendAll (silent.moved moved) count sized)
  | committed u none_failed moved ended =>
    have fine := no_error none_failed
    rw [ended]
    exact answered_close
      (answered_sendAndNotify (silent.moved moved) count fine fun r mem => sized r mem (fine r mem))

theorem answered_transaction (silent : Silent s) :
    AnsweredOnce b (executeTransactionBatch db b s) := by
  obtain ⟨e, u, calls, moved, ended⟩ | ⟨u, calls, results, moved, count, plain, ended⟩ :=
    transaction_exit db b s
  · rw [ended]
    exact answered_sendError (silent.moved moved)
  · rw [ended]
    exact answered_sendAndNotify (silent.moved moved) count plain.fine plain.sized

/-- A mixed batch never panics; a batch of one text does where a slice is out of bounds, or
a DELETE has no parameter to take. -/
def batchPanics (m : Manager) (db : Nat → Reply) (b : Batch) : Bool :=
  allSame b &&
    if !b.first.hasReturning && isBatchableInsert b.first.query then insertPanics m db b
    else
      match isBatchableDelete b.first.query with
      | none => true
      | some true => (batchedDelete b).isNone
      | some false => false

/-- Each request of a batch is answered exactly once, and its callback runs at most once and
after a success, unless the batch panics. -/
theorem answered_once_iff (m : Manager) (db : Nat → Reply) (b : Batch) :
    AnsweredOnce b (executeBatchedWrites m db b {}) ↔ batchPanics m db b = false := by
  have silent : Silent {} := ⟨rfl, rfl⟩
  apply Ends.iff
  unfold executeBatchedWrites batchPanics
  cases same : allSame b with
  | false => exact answered_transaction silent
  | true =>
    simp only [Bool.true_and, if_true]
    split
    · exact ends_insert
    · cases isBatchableDelete b.first.query with
      | none => exact ends_crash silent
      | some deletes =>
        cases deletes with
        | true => exact ends_delete silent
        | false => exact answered_prepared silent

/-- Two inserts into a table whose name is six bytes longer in upper case. -/
def turnedInserts : Batch where
  requests :=
    [{ query := lit "INSERT INTO ɐɐɐɐɐɐ VALUES (1)" },
      { query := lit "INSERT INTO ɐɐɐɐɐɐ VALUES (1)" }]
  several := by decide

theorem turned_inserts_unanswered :
    let t := executeBatchedWrites {} (fun _ => .ok 1 1 0) turnedInserts {}
    Utf8.valid turnedInserts.first.query = true ∧ t.panicked = true ∧ t.delivered = [] ∧
      ¬ AnsweredOnce turnedInserts t := by
  have panics : (executeBatchedWrites {} (fun _ => .ok 1 1 0) turnedInserts {}).panicked =
      true := by
    decide +kernel
  have nobody : (executeBatchedWrites {} (fun _ => .ok 1 1 0) turnedInserts {}).delivered = [] := by
    decide +kernel
  refine ⟨by decide +kernel, panics, nobody, fun answered => ?_⟩
  have nil := answered.once.length_eq
  rw [nobody] at nil
  cases nil

end TQDBProxy.WriteBatch
