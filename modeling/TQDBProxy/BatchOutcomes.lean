import TQDBProxy.BatchReturning
import TQDBProxy.WriteBatchManager

/-! The executor below the manager. The manager lets an execution answer with any results;
here they are those that the strategy of the batch sends. A call of `Enqueue` returns what
was sent for its place in its own batch. -/

namespace TQDBProxy.WriteBatchManager

open GuardedRuns WriteBatch

variable {K : Type} {maxBatchSize : Nat} {key : CallId → K} {s t : State K} {a : Action}
  {c : CallId}
  {result : WriteResult}

/-- The result is on its way to the call, or the call has returned it. -/
def Given (s : State K) (c : CallId) (result : WriteResult) : Prop :=
  s.calls c = .returned result ∨ s.channel c = some result ∨
    ∃ r g rest, s.runs r = some ⟨g, .deliver rest⟩ ∧ (c, result) ∈ rest

theorem given_setCall {d : CallId} {p : CallPoint} (given : Given (s.setCall d p) c result) :
    Given s c result ∨ c = d ∧ p = .returned result := by
  simp only [Given, State.setCall, Function.update_apply] at given ⊢
  grind

theorem given_setRun {r : RunId} {g : GroupId} {p : RunPoint}
    (given : Given (s.setRun r g p) c result) :
    Given s c result ∨ ∃ rest, p = .deliver rest ∧ (c, result) ∈ rest := by
  simp only [Given, State.setRun, Function.update_apply] at given ⊢
  grind

theorem given_send {d : CallId} {r : WriteResult} (given : Given (s.send d r) c result) :
    Given s c result ∨ c = d ∧ r = result := by
  simp only [Given, State.send, Function.update_apply] at given ⊢
  grind

theorem given_receive {d : CallId} {r : WriteResult} (sent : s.channel d = some r)
    (given : Given ({ s with channel := Function.update s.channel d none }.setCall d (.returned r))
      c result) :
    Given s c result := by
  simp only [Given, State.setCall, Function.update_apply] at given ⊢
  grind

/-- A result is given to a call where it was already, by a cancellation, by the closed
manager, or by the execution of a batch that has the call. -/
theorem given_step [DecidableEq K] (tr : Transition maxBatchSize key s a t)
    (given : Given t c result) :
    Given s c result ∨ result = .failed .canceled ∨ result = .failed .managerClosed ∨
      ∃ r g batch results, a = .execute r results ∧ s.runs r = some ⟨g, .execute batch⟩ ∧
        (c, result) ∈ batch.zip results := by
  cases tr with
  | invoke | reject | proceed | found | missed | created | retry | first | fill | join | delete
  | stop =>
    exact .inl ((given_setCall given).resolve_right (by simp))
  | spawn =>
    have spawned := (given_setCall given).resolve_right (by simp)
    exact .inl ((given_setRun spawned).resolve_right (by simp))
  | receive d r point sent => exact .inl (given_receive sent given)
  | cancel d =>
    rcases given_setCall given with before | ⟨rfl, same⟩
    · exact .inl before
    · cases same
      exact .inr (.inl rfl)
  | fire | readClosed | answered | take | delivered =>
    exact .inl ((given_setRun given).resolve_right (by simp))
  | enter => exact .inl ((given_setRun given).resolve_right (by split <;> simp))
  | compareAndDelete r g requests =>
    have moved := (given_setRun given).resolve_right (by split <;> simp)
    split at moved
    · exact .inl moved
    · exact .inl moved
  | answer r g d rest =>
    rcases given_setRun given with before | ⟨rest, same, -⟩
    · rcases given_send before with before | ⟨-, rfl⟩
      · exact .inl before
      · exact .inr (.inr (.inl rfl))
    · cases same
  | deliver r g d res rest running =>
    rcases given_setRun given with before | ⟨rest, same, mem⟩
    · rcases given_send before with before | ⟨rfl, rfl⟩
      · exact .inl before
      · exact .inl (.inr (.inr ⟨r, g, _, running, by simp⟩))
    · cases same
      exact .inl (.inr (.inr ⟨r, g, _, running, List.mem_cons_of_mem _ mem⟩))
  | execute r g batch results running =>
    rcases given_setRun given with before | ⟨rest, same, mem⟩
    · exact .inl before
    · cases same
      exact .inr (.inr (.inr ⟨r, g, batch, results, rfl, running, mem⟩))
  | close => exact .inl given

section

variable [DecidableEq K] (m : Manager) (db : RunId → Nat → Reply) (request : CallId → WriteRequest)

/-- The results are those that the strategy of the batch sends. -/
def strategyRan (s : State K) : Action → Bool
  | .execute r results =>
    match s.runs r with
    | some ⟨_, .execute batch⟩ =>
      (executeBatch m (db r) (batch.map request) {}).delivered == results.zipIdx.map Prod.swap
    | _ => true
  | _ => true

abbrev Runs (maxBatchSize : Nat) (key : CallId → K) : State K → State K → Prop :=
  Reach (step maxBatchSize key) fun s a => strategyRan m db request s a = true

/-- On the way to `s` a batch was executed in which the call has place `i`, and its strategy
has sent the result to that place. -/
def OwnAnswer (maxBatchSize : Nat) (key : CallId → K) (k : K) (s : State K) (c : CallId)
    (result : WriteResult) : Prop :=
  ∃ u v r g batch results i, Runs m db request maxBatchSize key (init k) u ∧
    u.runs r = some ⟨g, .execute batch⟩ ∧ step maxBatchSize key u (.execute r results) = some v ∧
    Runs m db request maxBatchSize key v s ∧ batch[i]? = some c ∧
    (i, result) ∈ (executeBatch m (db r) (batch.map request) {}).delivered

variable {m db request}

omit [DecidableEq K] in
theorem sent_of_strategyRan {r : RunId} {g : GroupId} {batch : List CallId}
    {results : List WriteResult} (running : s.runs r = some ⟨g, .execute batch⟩)
    (ran : strategyRan m db request s (.execute r results) = true)
    (mem : (c, result) ∈ batch.zip results) :
    ∃ i, batch[i]? = some c ∧
      (i, result) ∈ (executeBatch m (db r) (batch.map request) {}).delivered := by
  obtain ⟨i, place⟩ := List.mem_iff_getElem?.mp mem
  obtain ⟨atCall, atResult⟩ := List.getElem?_zip_eq_some.mp place
  simp only [strategyRan, running, beq_iff_eq] at ran
  refine ⟨i, atCall, ?_⟩
  rw [ran]
  exact List.mem_map.mpr ⟨(result, i), List.mk_mem_zipIdx_iff_getElem?.mpr atResult, rfl⟩

/-- A call of `Enqueue` that is not cancelled and not refused returns what the strategy of
its own batch has sent for its place in the batch. -/
theorem enqueue_returns_own {k : K} (reach : Runs m db request maxBatchSize key (init k) s)
    (returned : s.calls c = .returned result) :
    result = .failed .canceled ∨ result = .failed .managerClosed ∨
      OwnAnswer m db request maxBatchSize key k s c result := by
  suffices all : ∀ c result, Given s c result → result = .failed .canceled ∨
    result = .failed .managerClosed ∨
      OwnAnswer m db request maxBatchSize key k s c result from all c result (.inl returned)
  clear returned
  induction reach with
  | start =>
    rintro c result (returned | sent | ⟨r, g, rest, running, -⟩)
    · cases returned
    · cases sent
    · cases running
  | next before ran taken ih =>
    intro c result given
    rcases given_step (step_transition taken) given with
      known | canceled | closed | ⟨r, g, batch, results, rfl, running, mem⟩
    · refine (ih c result known).imp_right fun answer => answer.imp_right ?_
      rintro ⟨u, v, r, g, batch, results, i, early, running, executed, later, own⟩
      exact ⟨u, v, r, g, batch, results, i, early, running, executed, later.next ran taken, own⟩
    · exact .inl canceled
    · exact .inr (.inl closed)
    · obtain ⟨i, own⟩ := sent_of_strategyRan running ran mem
      exact .inr (.inr ⟨_, _, r, g, batch, results, i, before, running, taken, .start, own⟩)

end

/-- Two requests are taken by the timer of their group, and the second call receives first. -/
def together : List Action :=
  [.invoke 0, .call 0, .call 0, .call 0, .call 0, .invoke 1, .call 1, .call 1, .call 1, .fire 0,
   .run (.timer 0), .run (.timer 0), .run (.timer 0),
   .execute (.timer 0)
     [{ affectedRows := 2, batchSize := 2 }, { affectedRows := 3, batchSize := 2 }],
   .run (.timer 0), .run (.timer 0), .receive 1, .receive 0]

def updating : CallId → WriteRequest := fun c =>
  { query := lit "UPDATE t SET a = ?", params := [.int c] }

/-- The n-th call to the database affects n rows. -/
def counting : RunId → Nat → Reply := fun _ n => .ok n 0 0

theorem enqueue_returns_own_pair :
    ∃ s, s.calls 0 = .returned { affectedRows := 2, batchSize := 2 } ∧
      s.calls 1 = .returned { affectedRows := 3, batchSize := 2 } ∧
      OwnAnswer {} counting updating 10 (fun _ => ()) () s 0 { affectedRows := 2, batchSize := 2 } ∧
      OwnAnswer {} counting updating 10 (fun _ => ()) () s 1
        { affectedRows := 3, batchSize := 2 } := by
  obtain ⟨s, reach, ends⟩ := checked_of_test (step 10 fun _ => ())
    (strategyRan {} counting updating) (init ()) together
    (fun s => decide (s.calls 0 = .returned { affectedRows := 2, batchSize := 2 } ∧
      s.calls 1 = .returned { affectedRows := 3, batchSize := 2 })) (by decide +kernel)
  obtain ⟨first, second⟩ := of_decide_eq_true ends
  refine ⟨s, first, second, ?_, ?_⟩
  · exact ((enqueue_returns_own reach first).resolve_left nofun).resolve_left nofun
  · exact ((enqueue_returns_own reach second).resolve_left nofun).resolve_left nofun

end TQDBProxy.WriteBatchManager
