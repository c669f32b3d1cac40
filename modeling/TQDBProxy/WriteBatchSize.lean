import TQDBProxy.WriteBatchKeys

/-! How many requests one batch holds. The limit is tested after a request is appended,
and not at all for the first request of a group; a call that has looked a full group up
before it left the map may yet append to it. -/

namespace TQDBProxy.WriteBatchManager

open GuardedRuns

variable {K : Type} {maxBatchSize : Nat} {key : CallId → K} {s t : State K} {a : Action} {k : K}

/-- A request joins others only in a group that is still in the map, and only where a
batch may hold two. -/
def joinsInTime [DecidableEq K] (maxBatchSize : Nat) (key : CallId → K) (s : State K) :
    Action → Bool
  | .call c =>
    match s.calls c with
    | .lockGroup g =>
      (s.heap g).held.isEmpty || (decide (2 ≤ maxBatchSize) && s.groups (key c) = some g)
    | _ => true
  | _ => true

/-- A group that can be looked up has room for one more request, unless it is locked. -/
structure Sized (maxBatchSize : Nat) (s : State K) : Prop where
  held : ∀ g, (s.heap g).held.length ≤ maxBatchSize
  room : ∀ k g, s.groups k = some g → (s.heap g).locked = false → 2 ≤ maxBatchSize →
    (s.heap g).held.length < maxBatchSize
  taken : ∀ r, (s.taken r).length ≤ maxBatchSize

theorem sized_init (k : K) : Sized maxBatchSize (init k) := by
  constructor
  · simp [init, newGroup, BatchGroup.held]
  · simp [init]
  · simp [init]

theorem Sized.frame (sized : Sized maxBatchSize s)
    (held : ∀ g, (t.heap g).held = (s.heap g).held)
    (locked : ∀ g, (t.heap g).locked = (s.heap g).locked) (groups : ∀ k g, t.groups k = some g →
      s.groups k = some g) (taken : t.taken = s.taken) :
    Sized maxBatchSize t where
  held g := by
    rw [held]
    exact sized.held g
  room k g mapped unlocked := by
    rw [held]
    rw [locked] at unlocked
    exact sized.room k g (groups k g mapped) unlocked
  taken := by
    rw [taken]
    exact sized.taken

theorem Sized.setGroup (sized : Sized maxBatchSize s) (g : GroupId) (b : BatchGroup K)
    (held : b.held.length ≤ maxBatchSize)
    (room : ∀ k, s.groups k = some g → b.locked = false → 2 ≤ maxBatchSize →
      b.held.length < maxBatchSize) :
    Sized maxBatchSize (s.setGroup g b) where
  held h := by
    by_cases same : h = g
    · subst h
      simpa [State.setGroup] using held
    · simpa [State.setGroup, same] using sized.held h
  room k h mapped unlocked := by
    by_cases same : h = g
    · subst h
      simpa [State.setGroup] using room k mapped (by simpa [State.setGroup] using unlocked)
    · simpa [State.setGroup, same] using
        sized.room k h mapped (by simpa [State.setGroup, same] using unlocked)
  taken := sized.taken

theorem Sized.setCall (sized : Sized maxBatchSize s) (c : CallId) (p : CallPoint) :
    Sized maxBatchSize (s.setCall c p) := { sized with }

section
variable [DecidableEq K]

theorem Sized.clearKey (sized : Sized maxBatchSize s) (k : K) :
    Sized maxBatchSize (s.setKey k none) := by
  refine sized.frame (fun _ => rfl) (fun _ => rfl) (fun k' g mapped => ?_) rfl
  by_cases same : k' = k
  · simp [State.setKey, same] at mapped
  · simpa [State.setKey, same] using mapped

theorem Sized.create (sized : Sized maxBatchSize s) (k : K) :
    Sized maxBatchSize (({ s with fresh := s.fresh + 1 }.setGroup s.fresh (newGroup k)).setKey
      k (some s.fresh)) where
  held g := by
    by_cases same : g = s.fresh
    · simp [State.setGroup, State.setKey, newGroup, BatchGroup.held, same]
    · simpa [State.setGroup, State.setKey, same] using sized.held g
  room k' g mapped unlocked two := by
    by_cases same : g = s.fresh
    · simp only [State.setGroup, State.setKey, newGroup, BatchGroup.held, same,
        Function.update_self,
        Option.getD_some, List.length_nil]
      omega
    · have other : k' ≠ k := by
        rintro rfl
        exact same (by simpa [State.setGroup, State.setKey, eq_comm] using mapped)
      have mapped :
        s.groups k' = some g := by simpa [State.setGroup, State.setKey, other] using mapped
      simpa [State.setGroup, State.setKey, same] using
        sized.room k' g mapped (by simpa [State.setGroup, State.setKey, same] using unlocked) two
  taken := sized.taken

theorem unlocked_of_step {c : CallId} {g : GroupId} (point : s.calls c = .lockGroup g)
    (taken : step maxBatchSize key s (.call c) = some t) : (s.heap g).locked = false := by
  simp only [step, callStep, point] at taken
  split_ifs at taken with locked
  simpa using locked

theorem Sized.room_of_joins (sized : Sized maxBatchSize s) {c : CallId} {g : GroupId}
    {requests : List CallId} (point : s.calls c = .lockGroup g)
    (held : (s.heap g).requests = some requests) (others : requests ≠ [])
    (inTime : joinsInTime maxBatchSize key s (.call c) = true)
    (taken : step maxBatchSize key s (.call c) = some t) : requests.length < maxBatchSize := by
  have same : (s.heap g).held = requests := by simp [BatchGroup.held, held]
  obtain ⟨two, mapped⟩ : 2 ≤ maxBatchSize ∧ s.groups (key c) = some g := by
    simpa [joinsInTime, point, same, others] using inTime
  rw [← same]
  exact sized.room (key c) g mapped (unlocked_of_step point taken) two

theorem sized_step (positive : 1 ≤ maxBatchSize) (keyed : Keyed key s)
    (sized : Sized maxBatchSize s) (inTime : joinsInTime maxBatchSize key s a = true)
    (taken : step maxBatchSize key s a = some t) : Sized maxBatchSize t := by
  cases step_transition taken with
  | invoke c | reject c | proceed c | found c | missed c | retry c | cancel c =>
    exact sized.setCall c _
  | created c => exact (sized.create (key c)).setCall c _
  | first c g point empty =>
    refine (sized.setGroup g _ ?_ ?_).setCall c _
    · simpa [BatchGroup.held] using positive
    · intro k mapped unlocked two
      exact two
  | fill c g requests point held others full =>
    have room := sized.room_of_joins point held others inTime taken
    refine (sized.setGroup g _ ?_ ?_).setCall c _
    · simp only [BatchGroup.held, Option.getD_some, List.length_append, List.length_singleton]
      omega
    · simp
  | join c g requests point held others less =>
    refine (sized.setGroup g _ ?_ ?_).setCall c _
    · simp only [BatchGroup.held, Option.getD_some, List.length_append, List.length_singleton]
      omega
    · intro k mapped unlocked two
      simpa [BatchGroup.held] using less
  | delete c g point =>
    -- the group is in the map under the key of the call only, so it can no longer be looked up
    refine ((sized.clearKey (key c)).setGroup g { s.heap g with locked := false } (sized.held g)
      ?_).setCall c _
    intro k mapped
    have named : (s.heap g).batchKey = key c :=
      keyed.callGroup c g (by simp [point, CallPoint.group])
    by_cases same : k = key c
    · simp [State.setKey, same] at mapped
    · have mapped : s.groups k = some g := by simpa [State.setKey, same] using mapped
      exact absurd ((keyed.mapped k g mapped).symm.trans named) same
  | stop c g point =>
    have stopped := sized.setGroup g { s.heap g with
      timer := if (s.heap g).timer = .armed then .stopped else (s.heap g).timer } (sized.held g)
        fun k => sized.room k g
    exact stopped.setCall c _
  | fire g =>
    have fired := sized.setGroup g { s.heap g with timer := .fired } (sized.held g) fun k =>
      sized.room k g
    exact { fired with }
  | take r g =>
    have emptied := sized.setGroup g { s.heap g with requests := none } (by simp [BatchGroup.held])
      fun _ _ _ two => by simp only [BatchGroup.held, Option.getD_none, List.length_nil]; omega
    refine { emptied with taken := fun q => ?_ }
    by_cases same : q = r
    · simpa [State.setRun, State.setGroup, BatchGroup.held, same] using sized.held g
    · simpa [State.setRun, State.setGroup, same] using sized.taken q
  | compareAndDelete r g requests =>
    by_cases mapped : s.groups (s.heap g).batchKey = some g
    · rw [if_pos mapped]
      exact { sized.clearKey (s.heap g).batchKey with }
    · rw [if_neg mapped]
      exact { sized with }
  | _ => exact { sized with }

/-- No run takes more requests than the limit. -/
theorem batch_size_bounded (positive : 1 ≤ maxBatchSize)
    (reach : Reach (step maxBatchSize key) (fun s a => joinsInTime maxBatchSize key s a = true)
      (init k) s)
    (r : RunId) : (s.taken r).length ≤ maxBatchSize := by
  have bounded : Shape s ∧ Keyed key s ∧ Sized maxBatchSize s := by
    refine reach.invariant (P := fun s => Shape s ∧ Keyed key s ∧ Sized maxBatchSize s)
      ⟨shape_init k, keyed_init k, sized_init k⟩ ?_
    intro s a t ⟨shape, keyed, sized⟩ inTime taken
    have tr := step_transition taken
    exact ⟨shape_step shape tr, keyed_step keyed shape tr,
      sized_step positive keyed sized inTime taken⟩
  exact bounded.2.2.taken r

end

def arrives (c : CallId) : List Action := [.invoke c, .call c, .call c]

def fills (c : CallId) : List Action := [.call c, .call c, .call c, .call c, .run (.full c)]

def twoRequests : List Action :=
  arrives 0 ++ [.call 0, .call 0] ++ arrives 1 ++ fills 1 ++ [.run (.full 1)]

theorem batch_size_bounded_two :
    ∃ s : State GoString, s.taken (.full 1) = [0, 1] ∧ (s.taken (.full 1)).length ≤ 2 := by
  obtain ⟨s, reach, full⟩ :=
    checked_of_test (step 2 fun _ => lit "k") (joinsInTime 2 fun _ => lit "k")
    (init (lit "k")) twoRequests (fun s => decide (s.taken (.full 1) = [0, 1])) (by decide)
  exact ⟨s, of_decide_eq_true full, batch_size_bounded (by decide) reach (.full 1)⟩

/-- Call 2 has found the group when call 1 fills it, and appends before it is taken. -/
def lateJoin : List Action :=
  arrives 0 ++ [.call 0, .call 0] ++ arrives 1 ++ arrives 2 ++ fills 1 ++
    [.call 2, .call 2, .run (.full 1)]

/-- A limit of one never applies to the second request; a limit of two is passed by a
call that comes late to a full group. -/
theorem batch_exceeds_limit :
    (∃ s, Reach (step 1 fun _ => lit "k") free (init (lit "k")) s ∧ s.taken (.full 1) = [0, 1]) ∧
      ∃ s, Reach (step 2 fun _ => lit "k") free (init (lit "k")) s ∧
        s.taken (.full 1) = [0, 1, 2] := by
  constructor
  · obtain ⟨s, reach, two⟩ := free_of_test (step 1 fun _ => lit "k") (init (lit "k")) twoRequests
      (fun s => decide (s.taken (.full 1) = [0, 1])) (by decide)
    exact ⟨s, reach, of_decide_eq_true two⟩
  · obtain ⟨s, reach, three⟩ := free_of_test (step 2 fun _ => lit "k") (init (lit "k")) lateJoin
      (fun s => decide (s.taken (.full 1) = [0, 1, 2])) (by decide)
    exact ⟨s, reach, of_decide_eq_true three⟩

end TQDBProxy.WriteBatchManager
