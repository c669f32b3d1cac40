import TQDBProxy.BatchExits
import TQDBProxy.DeleteMeaning

/-! The number of parameters that a combined statement binds. Both wire protocols count
them in 16 bits. A DELETE binds one for each request; an INSERT binds all parameters of
all requests, and nothing compares their number with the limit. -/

namespace TQDBProxy.WriteBatch

def maxParams : Nat := 65535

def WithinLimit (calls : List Call) : Prop :=
  ∀ text args, Call.exec text args ∈ calls → args.length ≤ maxParams

/-- The rows are combined with placeholders: VALUES is found in the text, and the first
request has parameters. -/
def combinesRows (b : Batch) : Bool :=
  !b.first.params.isEmpty && (valuesIdx b.first.query).any (decide <| · ≤ b.first.query.length)

variable {m : Manager} {db : Nat → Reply} {b : Batch} {s : Session} {text : GoString}
  {args : List Value}

theorem withinLimit_nil : WithinLimit [] := fun _ _ mem => by cases mem

theorem withinLimit_exec : WithinLimit [.exec text args] ↔ args.length ≤ maxParams := by
  constructor
  · intro within
    exact within text args (List.mem_singleton_self _)
  · intro fits text' args' mem
    cases List.mem_singleton.mp mem
    exact fits

theorem withinLimit_fallback : WithinLimit (executePreparedBatchFallback db b {}).calls := by
  have unbound {calls : List Call} (none : ∀ call ∈ calls, ∀ text args, call ≠ .exec text args) :
      WithinLimit calls := fun text args mem => absurd rfl (none _ mem text args)
  obtain ⟨e, u, moved, ended⟩ | ⟨u, moved, ended⟩ := fallback_exit db b {}
  · have calls : (u.sendError b e).calls = [.prepare b.first.query] := moved.calls
    rw [ended, calls]
    exact unbound (List.forall_mem_singleton.mpr fun _ _ => Call.noConfusion)
  · have calls : ((fallbackRows db b.requests.length b.requests 0 u).close db).calls =
        [.prepare b.first.query] ++ b.requests.map (preparedCall false) ++ [.stmtClose] := by
      rw [Session.close, Session.call, fallbackRows_calls, moved.calls]
      rfl
    rw [ended, calls]
    refine unbound (List.forall_mem_append.mpr ⟨List.forall_mem_append.mpr ⟨?_, ?_⟩, ?_⟩)
    · exact List.forall_mem_singleton.mpr fun _ _ => Call.noConfusion
    · intro call row
      obtain ⟨req, _, rfl⟩ := List.mem_map.mp row
      exact fun _ _ => Call.noConfusion
    · exact List.forall_mem_singleton.mpr fun _ _ => Call.noConfusion

theorem multiRow_calls (built : multiRow b.first.query b.paramLists = .statement text args)
    (s : Session) :
    (executeTrueBatchedInsertMultiRow m db b s).calls = s.calls ++ [.exec text args] := by
  cases multiRow_exit m db b s with
  | panics other _ | fallback other _ =>
    rw [built] at other
    cases other
  | refused text' args' e u same moved _ ended | accepted text' args' _ _ _ u same moved _ ended =>
    rw [built] at same
    cases same
    rw [ended]
    exact moved.calls

theorem paramLists_head (b : Batch) : b.paramLists.headD [] = b.first.params := by
  obtain ⟨requests, several⟩ := b
  cases requests with
  | nil => exact absurd several (by decide)
  | cons => rfl

theorem withinLimit_unbuilt
    (unbuilt : ∀ text args, multiRow b.first.query b.paramLists ≠ .statement text args) :
    WithinLimit (executeTrueBatchedInsertMultiRow m db b {}).calls := by
  cases multiRow_exit m db b {} with
  | panics _ ended =>
    rw [ended]
    exact withinLimit_nil
  | fallback _ ended =>
    rw [ended]
    exact withinLimit_fallback
  | refused text args _ _ built _ _ _ | accepted text args _ _ _ _ built _ _ _ =>
    exact absurd built (unbuilt text args)

theorem withinLimit_built (built : multiRow b.first.query b.paramLists = .statement text args) :
    WithinLimit (executeTrueBatchedInsertMultiRow m db b {}).calls ↔ args.length ≤ maxParams := by
  rw [multiRow_calls built]
  exact withinLimit_exec

theorem withinLimit_insert_iff :
    WithinLimit (executeTrueBatchedInsertMultiRow m db b {}).calls ↔
      (combinesRows b = true → b.paramLists.flatten.length ≤ maxParams) := by
  have apart (single : combinesRows b = false)
    (within : WithinLimit (executeTrueBatchedInsertMultiRow m db b {}).calls) :
      WithinLimit (executeTrueBatchedInsertMultiRow m db b {}).calls ↔
        (combinesRows b = true → b.paramLists.flatten.length ≤ maxParams) :=
    iff_of_true within fun combined => by rw [single] at combined; cases combined
  cases found : valuesIdx b.first.query with
  | none =>
    refine apart (by rw [combinesRows, found, Option.any_none, Bool.and_false])
      (withinLimit_unbuilt ?_)
    intro text args built
    rw [multiRow, found] at built
    cases built
  | some cut =>
    by_cases inside : cut ≤ b.first.query.length
    · have built : multiRow b.first.query b.paramLists = _ := multiRow_of_cut found inside
      rw [paramLists_head] at built
      by_cases empty : b.first.params.length = 0
      · rw [if_pos empty] at built
        refine apart ?_ ((withinLimit_built built).mpr (Nat.zero_le _))
        rw [combinesRows, List.isEmpty_iff_length_eq_zero.mpr empty]
        rfl
      · have combined : combinesRows b = true := by
          rw [combinesRows, found, Option.any_some, decide_eq_true inside, Bool.and_true]
          simpa using empty
        rw [if_neg empty] at built
        rw [withinLimit_built built, combined]
        exact ⟨fun fits _ => fits, fun fits => fits rfl⟩
    · refine apart ?_ (withinLimit_unbuilt ?_)
      · rw [combinesRows, found, Option.any_some, decide_eq_false inside, Bool.and_false]
      · intro text args built
        simp [multiRow, found, Strings.sliceTo, inside] at built

theorem length_of_mapM {lists : List (List Value)} {args : List Value}
    (taken : lists.mapM List.head? = some args) :
    args.length = lists.length := by
  induction lists generalizing args with
  | nil =>
    cases taken
    rfl
  | cons list lists ih =>
    rw [List.mapM_cons] at taken
    obtain ⟨value, _, rest⟩ := Option.bind_eq_some_iff.mp taken
    obtain ⟨values, later, same⟩ := Option.bind_eq_some_iff.mp rest
    cases same
    rw [List.length_cons, List.length_cons, ih later]

theorem withinLimit_delete (few : b.requests.length ≤ maxParams) :
    WithinLimit (executeTrueBatchedDelete db b {}).calls := by
  have bound {text : GoString} {args : List Value} (built : batchedDelete b = some (text, args)) :
      WithinLimit [.exec text args] := by
    obtain ⟨_, _, taken, _⟩ := batchedDelete_iff.mp built
    rw [withinLimit_exec, length_of_mapM taken, Batch.paramLists, List.length_map]
    exact few
  cases delete_exit db b {} with
  | panics _ ended =>
    rw [ended]
    exact withinLimit_nil
  | refused text args e u built moved _ ended =>
    have calls : (u.sendError b e).calls = [.exec text args] := moved.calls
    rw [ended, calls]
    exact bound built
  | accepted text args affected lastID returned u built moved _ ended =>
    have calls : (u.sendAndNotify b (deleteResults b affected)).calls = [.exec text args] :=
      moved.calls
    rw [ended, calls]
    exact bound built

/-- In batches of at most the documented size the combined DELETE can always be bound, the
combined INSERT when the parameters of all requests are few enough. -/
theorem combined_within_limit_iff (m : Manager) (db : Nat → Reply) (maxBatchSize : Nat)
    (admitted : 1 ≤ maxBatchSize ∧ maxBatchSize ≤ 10000) (b : Batch)
    (taken : b.requests.length ≤ maxBatchSize) :
    (WithinLimit (executeTrueBatchedInsertMultiRow m db b {}).calls ∧
        WithinLimit (executeTrueBatchedDelete db b {}).calls) ↔
      (combinesRows b = true → b.paramLists.flatten.length ≤ maxParams) := by
  have few : b.requests.length ≤ maxParams := by
    rw [maxParams]
    omega
  rw [withinLimit_insert_iff, and_iff_left (withinLimit_delete few)]

def copies (req : WriteRequest) (n : Nat) (several : 2 ≤ n) : Batch :=
  ⟨List.replicate n req, Nat.le_trans several (Nat.le_of_eq List.length_replicate.symm)⟩

theorem copies_first (req : WriteRequest) (n : Nat) (several : 2 ≤ n) :
    (copies req n several).first = req :=
  List.head_replicate _

theorem copies_params (req : WriteRequest) (n : Nat) (several : 2 ≤ n) :
    (copies req n several).paramLists.flatten.length = n * req.params.length := by
  rw [Batch.paramLists, copies, List.map_replicate, List.length_flatten, List.map_replicate,
    List.sum_replicate_nat]

def sevenColumns : WriteRequest where
  query := lit "INSERT INTO t (a, b, c, d, e, f, g) VALUES (?, ?, ?, ?, ?, ?, ?)"
  params := [.int 1, .int 2, .int 3, .int 4, .int 5, .int 6, .int 7]

def numbers (k : Nat) : Reply := .ok 1 k 0

/-- In a batch of two the statement can be bound. -/
theorem two_rows_within_limit :
    WithinLimit
      (executeTrueBatchedInsertMultiRow {} numbers (copies sevenColumns 2 (Nat.le_refl 2))
        {}).calls :=
  ((combined_within_limit_iff {} numbers 1000 ⟨by decide, by decide⟩
    (copies sevenColumns 2 (Nat.le_refl 2)) (by decide)).mpr fun _ => by decide).1

/-- Ten thousand rows make one statement with seventy thousand parameters. -/
theorem wide_rows_beyond_limit :
    (copies sevenColumns 10000 (Nat.le_add_left 2 9998)).requests.length = 10000 ∧
      sevenColumns.params.length ≤ maxParams ∧
      (copies sevenColumns 10000 (Nat.le_add_left 2 9998)).paramLists.flatten.length = 70000 ∧
      ¬ WithinLimit
        (executeTrueBatchedInsertMultiRow {} numbers
          (copies sevenColumns 10000 (Nat.le_add_left 2 9998)) {}).calls := by
  have count : (copies sevenColumns 10000 (Nat.le_add_left 2 9998)).paramLists.flatten.length =
      70000 :=
    copies_params sevenColumns 10000 (Nat.le_add_left 2 9998)
  have combined : combinesRows (copies sevenColumns 10000 (Nat.le_add_left 2 9998)) = true := by
    rw [combinesRows, copies_first]
    decide
  refine ⟨List.length_replicate, by decide, count, fun within => ?_⟩
  have fits := withinLimit_insert_iff.mp within combined
  rw [count] at fits
  exact absurd fits (by decide)

end TQDBProxy.WriteBatch
