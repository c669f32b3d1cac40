import TQDBProxy.WriteBatchKeys

/-! Finished groups. The requests of a group are taken in one critical section and the
group is removed from the map in a later step. In between a call may find the group
without requests and start again; afterwards it is never found again, since only a new
group is ever stored. -/

namespace TQDBProxy.WriteBatchManager

open GuardedRuns

variable {K : Type} {maxBatchSize : Nat} {key : CallId → K} {s t : State K} {a : Action}

/-- An executeBatch of the group is between taking the requests and its CompareAndDelete. -/
def InWindow (s : State K) (g : GroupId) : Prop :=
  ∃ r requests, s.runs r = some ⟨g, .compareAndDelete requests⟩

def Findable (s : State K) (g : GroupId) : Prop := ∃ k, s.groups k = some g

def Closing (s : State K) : Prop := ∀ g, Findable s g → (s.heap g).requests = none → InWindow s g

theorem closing_init (k : K) : Closing (init k) := by
  rintro g ⟨k', found⟩
  cases found

theorem Shape.created (shape : Shape s) {g : GroupId} (nil : (s.heap g).requests = none) :
    g < s.fresh := by
  by_contra above
  rw [shape.unused g (Nat.not_lt.mp above)] at nil
  cases nil

/-! ### The invariant -/

theorem InWindow.setRun {r : RunId} {g h : GroupId} {p : RunPoint} (window : InWindow s h)
    (other : ∀ requests, s.runs r ≠ some ⟨h, .compareAndDelete requests⟩) :
      InWindow (s.setRun r g p) h := by
  obtain ⟨q, requests, running⟩ := window
  have apart : q ≠ r := by
    rintro rfl
    exact other requests running
  exact ⟨q, requests, by simpa [State.setRun, apart] using running⟩

theorem Closing.setRun (closing : Closing s) (r : RunId) (g : GroupId) (p : RunPoint)
    (outside : ∀ h requests, s.runs r ≠ some ⟨h, .compareAndDelete requests⟩) :
      Closing (s.setRun r g p) :=
  fun h found nil => (closing h found nil).setRun (outside h)

theorem Closing.moveRun (closing : Closing s) {r : RunId} {g : GroupId} {q : RunPoint}
    (running : s.runs r = some ⟨g, q⟩) (p : RunPoint)
    (outside : ∀ requests, q ≠ .compareAndDelete requests) :
    Closing (s.setRun r g p) := by
  refine closing.setRun r g p fun h requests there => ?_
  rw [running] at there
  exact outside requests (Run.mk.inj (Option.some.inj there)).2

theorem Closing.setGroup (closing : Closing s) (g : GroupId) (b : BatchGroup K)
    (same : b.requests = none → (s.heap g).requests = none) : Closing (s.setGroup g b) := by
  intro h found nil
  refine closing h found ?_
  by_cases eq : h = g
  · subst h
    exact same (by simpa [State.setGroup] using nil)
  · simpa [State.setGroup, eq] using nil

structure Orderly (key : CallId → K) (s : State K) : Prop where
  shape : Shape s
  keyed : Keyed key s
  closing : Closing s

theorem orderly_init (k : K) : Orderly key (init k) := ⟨shape_init k, keyed_init k, closing_init k⟩

section

variable [DecidableEq K]

theorem Closing.clearKey (closing : Closing s) (k : K) : Closing (s.setKey k none) := by
  rintro g ⟨k', found⟩ nil
  refine closing g ⟨k', ?_⟩ nil
  by_cases same : k' = k
  · simp [State.setKey, same] at found
  · simpa [State.setKey, same] using found

theorem Closing.create (closing : Closing s) (k : K) :
    Closing
      (({ s with fresh := s.fresh + 1 }.setGroup s.fresh (newGroup k)).setKey k
        (some s.fresh)) := by
  rintro g ⟨k', found⟩ nil
  by_cases fresh : g = s.fresh
  · simp [State.setGroup, State.setKey, newGroup, fresh] at nil
  · have other : k' ≠ k := by
      rintro rfl
      simp [State.setKey, Ne.symm fresh] at found
    refine closing g ⟨k', ?_⟩ ?_
    · simpa [State.setKey, State.setGroup, other] using found
    · simpa [State.setKey, State.setGroup, fresh] using nil

theorem not_findable_compareAndDelete (keyed : Keyed key s) (r : RunId) (g : GroupId)
    (p : RunPoint) :
    ¬ Findable ((if s.groups (s.heap g).batchKey = some g then s.setKey (s.heap g).batchKey none
      else s).setRun r g p) g := by
  rintro ⟨k, found⟩
  split_ifs at found with stored
  · by_cases same : k = (s.heap g).batchKey
    · simp [State.setRun, State.setKey, same] at found
    · have old : s.groups k = some g := by simpa [State.setRun, State.setKey, same] using found
      exact same (keyed.mapped k g old).symm
  · have old : s.groups k = some g := found
    exact stored (by rw [keyed.mapped k g old, old])

theorem closing_step (closing : Closing s) (keyed : Keyed key s) (shape : Shape s)
    (tr : Transition maxBatchSize key s a t) : Closing t := by
  cases tr with
  | invoke | reject | proceed | found | missed | retry | receive | cancel | close => exact closing
  | created c => exact closing.create (key c)
  | first c g point held | fill c g requests point held | join c g requests point held =>
    exact closing.setGroup g _ (by simp)
  | delete c g => exact (closing.clearKey (key c)).setGroup g _ id
  | stop c g => exact closing.setGroup g _ id
  | spawn c g point =>
    have idle := shape.noFull (c := c) (by simp [point, CallPoint.settled])
    exact closing.setRun (.full c) g .loadClosed (by simp [idle])
  | fire g armed =>
    have idle := shape.noTimer (g := g) (by simp [armed])
    exact (closing.setGroup g { s.heap g with timer := .fired } id).setRun (.timer g) g .loadClosed
      (by simp [State.setGroup, idle])
  | enter r g running | readClosed r g running | answered r g running | delivered r g running
  | execute r g requests results running =>
    exact closing.moveRun running _ (by simp)
  | answer r g c rest running => exact closing.moveRun running _ (by simp)
  | deliver r g c result rest running => exact closing.moveRun running _ (by simp)
  | take r g running =>
    intro h found nil
    by_cases eq : h = g
    · exact ⟨r, (s.heap g).requests.getD [], by simp [State.setRun, eq]⟩
    · have window : InWindow s h :=
        closing h found (by simpa [State.setRun, State.setGroup, eq] using nil)
      have apart : ∀ requests, s.runs r ≠ some ⟨h, .compareAndDelete requests⟩ := by simp [running]
      exact window.setRun apart
  | compareAndDelete r g requests running =>
    intro h found nil
    have other : h ≠ g := by
      rintro rfl
      exact not_findable_compareAndDelete keyed r h _ found
    -- the window of another group belongs to another run
    have apart : ∀ requests, s.runs r ≠ some ⟨h, .compareAndDelete requests⟩ := by
      intro requests there
      rw [running] at there
      exact other (Run.mk.inj (Option.some.inj there)).1.symm
    by_cases stored : s.groups (s.heap g).batchKey = some g
    · rw [if_pos stored] at found nil ⊢
      exact (closing.clearKey (s.heap g).batchKey h found nil).setRun apart
    · rw [if_neg stored] at found nil ⊢
      exact (closing h found nil).setRun apart

/-! ### Groups and calls along a run -/

theorem nil_step (shape : Shape s) {g : GroupId} (nil : (s.heap g).requests = none)
    (tr : Transition maxBatchSize key s a t) : (t.heap g).requests = none := by
  have created := shape.created nil
  have kept (h : GroupId) (b : BatchGroup K) (same : h = g → b.requests = none) :
      ((s.setGroup h b).heap g).requests = none := by
    by_cases eq : g = h
    · simpa [State.setGroup, eq] using same eq.symm
    · simpa [State.setGroup, eq] using nil
  have absurd {h : GroupId} {requests : List CallId} (held : (s.heap h).requests = some requests) :
      h ≠ g := by
    rintro rfl
    rw [nil] at held
    cases held
  cases tr with
  | first c h point held | fill c h requests point held | join c h requests point held =>
    exact kept h _ fun same => (absurd held same).elim
  | created c => simpa [State.setGroup, State.setKey, State.setCall, Nat.ne_of_lt created] using nil
  | delete c h => exact kept h _ (by rintro rfl; exact nil)
  | stop c h => exact kept h _ (by rintro rfl; exact nil)
  | fire h => exact kept h _ (by rintro rfl; exact nil)
  | take r h => exact kept h _ fun _ => rfl
  | compareAndDelete r h requests =>
    split
    · exact nil
    · exact nil
  | _ => exact nil

theorem not_findable_step {g : GroupId} (created : g < s.fresh) (out : ¬ Findable s g)
    (tr : Transition maxBatchSize key s a t) : ¬ Findable t g := by
  have cleared (k : K) : ¬ Findable (s.setKey k none) g := by
    rintro ⟨k', found⟩
    by_cases same : k' = k
    · simp [State.setKey, same] at found
    · exact out ⟨k', by simpa [State.setKey, same] using found⟩
  cases tr with
  | created c =>
    rintro ⟨k, found⟩
    by_cases same : k = key c
    · have fresh : s.fresh = g := by simpa [State.setKey, State.setCall, same] using found
      exact Nat.ne_of_lt created fresh.symm
    · exact out ⟨k, by simpa [State.setKey, State.setGroup, State.setCall, same] using found⟩
  | delete c h => exact cleared (key c)
  | compareAndDelete r h requests =>
    split
    · exact cleared _
    · exact out
  | _ => exact out

theorem lockGroup_step {c : CallId} {g : GroupId} (waits : t.calls c = .lockGroup g)
    (tr : Transition maxBatchSize key s a t) :
    (s.calls c = .lockGroup g ∧ a ≠ .call c) ∨
    (a = .call c ∧ (s.groups (key c) = some g ∨ g = s.fresh)) := by
  have before {d : CallId} {p : CallPoint} (waits : Function.update s.calls d p c = .lockGroup g)
      (leaves : p ≠ .lockGroup g) : s.calls c = .lockGroup g ∧ Action.call d ≠ .call c := by
    by_cases same : c = d
    · subst d
      rw [Function.update_self] at waits
      exact absurd waits leaves
    · rw [Function.update_of_ne same] at waits
      exact ⟨waits, fun called => same (Action.call.inj called).symm⟩
  cases tr with
  | reject d | proceed d | missed d | retry d h | first d h | join d h | fill d h | delete d h
  | stop d h | spawn d h =>
    exact .inl (before waits (by simp))
  | invoke d | cancel d | receive d => exact .inl ⟨(before waits (by simp)).1, by simp⟩
  | found d h point mapped =>
    by_cases same : h = g
    · subst h
      by_cases eq : c = d
      · subst d
        exact .inr ⟨rfl, .inl mapped⟩
      · exact .inl
          ⟨by simpa [State.setCall, eq] using waits, fun called => eq (Action.call.inj called).symm⟩
    · exact .inl (before waits fun there => same (CallPoint.lockGroup.inj there))
  | created d point absent =>
    by_cases same : s.fresh = g
    · by_cases eq : c = d
      · subst d
        exact .inr ⟨rfl, .inr same.symm⟩
      · exact .inl ⟨by simpa [State.setCall, State.setKey, State.setGroup, eq] using waits,
          fun called => eq (Action.call.inj called).symm⟩
    · exact .inl (before waits fun there => same (CallPoint.lockGroup.inj there))
  | compareAndDelete r h requests =>
    split at waits
    · exact .inl ⟨waits, by simp⟩
    · exact .inl ⟨waits, by simp⟩
  | _ => exact .inl ⟨waits, by simp⟩

theorem Orderly.step (orderly : Orderly key s) (taken : step maxBatchSize key s a = some t) :
    Orderly key t := by
  have tr := step_transition taken
  exact ⟨shape_step orderly.shape tr, keyed_step orderly.keyed orderly.shape tr,
    closing_step orderly.closing orderly.keyed orderly.shape tr⟩

theorem lockGroup_replay (orderly : Orderly key s) {c : CallId} {g : GroupId}
    (nil : (s.heap g).requests = none) (later : List Action)
    (run : replay (step maxBatchSize key) s later = some t) (waits : t.calls c = .lockGroup g) :
    (s.calls c = .lockGroup g ∧ .call c ∉ later) ∨
      ∃ before after u, later = before ++ .call c :: after ∧
        replay (step maxBatchSize key) s before = some u ∧
        u.groups (key c) = some g ∧ InWindow u g := by
  induction later generalizing s with
  | nil =>
    obtain rfl := Option.some.inj run
    exact .inl ⟨waits, List.not_mem_nil⟩
  | cons a rest ih =>
    obtain ⟨u, taken, run⟩ := Option.bind_eq_some_iff.mp run
    have tr := step_transition taken
    rcases ih (orderly.step taken) (nil_step orderly.shape nil tr) run with
      ⟨there, idle⟩ | ⟨before, after, v, cut, ran, found⟩
    · rcases lockGroup_step there tr with ⟨before, other⟩ | ⟨rfl, mapped | fresh⟩
      · exact .inl ⟨before, List.not_mem_cons_of_ne_of_not_mem other.symm idle⟩
      · exact .inr ⟨[], rest, s, rfl, rfl, mapped, orderly.closing g ⟨key c, mapped⟩ nil⟩
      · exact absurd fresh (Nat.ne_of_lt (orderly.shape.created nil))
    · refine .inr ⟨a :: before, after, v, by rw [cut, List.cons_append], ?_, found⟩
      rw [replay, taken, Option.bind_some, ran]

theorem dead_replay (orderly : Orderly key s) {g : GroupId} (nil : (s.heap g).requests = none)
    (out : ¬ Findable s g) (later : List Action)
    (run : replay (step maxBatchSize key) s later = some t) :
    (t.heap g).requests = none ∧ ¬ Findable t g := by
  have kept :=
    replay_invariant (P := fun u => Orderly key u ∧ (u.heap g).requests = none ∧ ¬ Findable u g)
    (fun u a v good taken => ?_) ⟨orderly, nil, out⟩ later run
  · exact kept.2
  · obtain ⟨orderly, nil, out⟩ := good
    have tr := step_transition taken
    exact ⟨orderly.step taken, nil_step orderly.shape nil tr,
      not_findable_step (orderly.shape.created nil) out tr⟩

/-- A group that is found without requests is removed by the next step of the executeBatch
that has taken them. A call waits for it a second time only if it has found it in that
window; once the group is out of the map it stays out. -/
theorem finished_group_in_window {k : K} (reach : Reach (step maxBatchSize key) free (init k) s) :
    (∀ k' g, s.groups k' = some g → (s.heap g).requests = none →
      ∃ r requests, s.runs r = some ⟨g, .compareAndDelete requests⟩ ∧
        ∃ t, step maxBatchSize key s (.run r) = some t ∧ ¬ Findable t g) ∧
    (∀ g, (s.heap g).requests = none → ∀ later t, replay (step maxBatchSize key) s later = some t →
      ∀ c, t.calls c = .lockGroup g → .call c ∈ later →
        ∃ before after u, later = before ++ .call c :: after ∧
          replay (step maxBatchSize key) s before = some u ∧
          u.groups (key c) = some g ∧ InWindow u g) ∧
    ∀ g, (s.heap g).requests = none → ¬ Findable s g →
      ∀ later t, replay (step maxBatchSize key) s later = some t →
        (t.heap g).requests = none ∧ ¬ Findable t g ∧
          ∀ c, t.calls c = .lockGroup g → s.calls c = .lockGroup g ∧ .call c ∉ later := by
  have orderly : Orderly key s :=
    reach.invariant (orderly_init k) fun u a v good _ taken => good.step taken
  refine ⟨fun k' g found nil => ?_, fun g nil later t run c waits moved => ?_,
    fun g nil out later t run => ?_⟩
  · obtain ⟨r, requests, running⟩ := orderly.closing g ⟨k', found⟩ nil
    refine ⟨r, requests, running, _, ?_, not_findable_compareAndDelete orderly.keyed r g
      (if requests = [] then .done else .execute requests)⟩
    simp only [step, running, runStep]
  · rcases lockGroup_replay orderly nil later run waits with ⟨-, idle⟩ | found
    · exact absurd moved idle
    · exact found
  · obtain ⟨dead, gone⟩ := dead_replay orderly nil out later run
    refine ⟨dead, gone, fun c waits => ?_⟩
    rcases lockGroup_replay orderly nil later run waits with
      idle | ⟨before, after, u, -, ran, mapped, -⟩
    · exact idle
    · exact absurd ⟨key c, mapped⟩ (dead_replay orderly nil out before ran).2

def taking : List Action :=
  [.invoke 0, .call 0, .call 0, .call 0, .call 0, .fire 0, .run (.timer 0), .run (.timer 0)]

theorem finished_group_in_window_taking :
    ∃ s, Reach (step 10 fun _ => ()) free (init ()) s ∧ s.groups () = some 0 ∧
      (s.heap 0).requests = none ∧
      InWindow s 0 := by
  obtain ⟨s, reach, ends⟩ := free_of_test (step 10 fun _ => ()) (init ()) taking
    (fun s => s.groups () = some 0 ∧ (s.heap 0).requests = none) (by decide)
  obtain ⟨found, nil⟩ := of_decide_eq_true ends
  obtain ⟨r, requests, running, -⟩ := (finished_group_in_window reach).1 () 0 found nil
  exact ⟨s, reach, found, nil, r, requests, running⟩

end

end TQDBProxy.WriteBatchManager
