import TQDBProxy.WriteBatchShape

/-! The requests of one batch share their batch key, in every reachable state of
the write-batch manager, and every request that is read or executed was queued by
its call. The key of a call matters only once the call is there, so the calls may
become known one after the other. -/

namespace TQDBProxy.WriteBatchManager

variable {K : Type} {maxBatchSize : Nat} {key : CallId → K} {s t : State K} {a : Action}
  {place : CallId → Place}

structure Keyed (key : CallId → K) (s : State K) : Prop where
  mapped : ∀ k g, s.groups k = some g → (s.heap g).batchKey = k
  callGroup : ∀ c g, (s.calls c).group = some g → (s.heap g).batchKey = key c
  held : ∀ g, ∀ c ∈ (s.heap g).held, (s.heap g).batchKey = key c
  taken : ∀ r, ∀ c ∈ s.taken r, ∀ d ∈ s.taken r, key c = key d

theorem keyed_init (k : K) : Keyed key (init k) := by
  constructor <;> simp [init, newGroup, BatchGroup.held, CallPoint.group]

theorem Keyed.setCall (keyed : Keyed key s) (c : CallId) (p : CallPoint)
    (named : ∀ g, p.group = some g → (s.heap g).batchKey = key c) : Keyed key (s.setCall c p) :=
  { keyed with
    callGroup := by
      intro d g at_g
      by_cases same : d = c
      · subst d
        exact named g (by simpa [State.setCall] using at_g)
      · exact keyed.callGroup d g (by simpa [State.setCall, same] using at_g) }

theorem Keyed.setGroup (keyed : Keyed key s) (g : GroupId) (b : BatchGroup K)
    (same : b.batchKey = (s.heap g).batchKey)
    (held : ∀ c ∈ b.held, (s.heap g).batchKey = key c) : Keyed key (s.setGroup g b) := by
  have kept : ∀ h, ((s.setGroup g b).heap h).batchKey = (s.heap h).batchKey := by
    intro h
    by_cases eq : h = g
    · subst h
      simpa [State.setGroup] using same
    · simp [State.setGroup, eq]
  constructor
  · intro k h found
    rw [kept]
    exact keyed.mapped k h found
  · intro c h at_h
    rw [kept]
    exact keyed.callGroup c h at_h
  · intro h c mem
    rw [kept]
    by_cases eq : h = g
    · subst h
      exact held c (by simpa [State.setGroup] using mem)
    · exact keyed.held h c (by simpa [State.setGroup, eq] using mem)
  · exact keyed.taken

theorem Keyed.rekey {key' : CallId → K} (keyed : Keyed key s) (located : Located place s)
    (same : ∀ c, s.calls c ≠ .absent → key' c = key c) : Keyed key' s := by
  have known : ∀ c, (s.calls c).queued = true → key' c = key c := by
    intro c queued
    refine same c fun absent => ?_
    simp [absent, CallPoint.queued] at queued
  constructor
  · exact keyed.mapped
  · intro c g at_g
    rw [keyed.callGroup c g at_g, same c fun absent => ?_]
    simp [absent, CallPoint.group] at at_g
  · intro g c mem
    rw [keyed.held g c mem, known c (located.queued mem)]
  · intro r c mem d mem'
    rw [known c (located.queued_of_taken mem), known d (located.queued_of_taken mem')]
    exact keyed.taken r c mem d mem'

theorem Keyed.append (keyed : Keyed key s) {c : CallId} {g : GroupId} {b : BatchGroup K}
    {p : CallPoint} (point : (s.calls c).group = some g) (same : b.batchKey = (s.heap g).batchKey)
    (appended : b.held = (s.heap g).held ++ [c]) (stays : ∀ h, p.group = some h → h = g) :
    Keyed key ((s.setGroup g b).setCall c p) := by
  have named := keyed.callGroup c g point
  have grown := keyed.setGroup g b same (by
    intro d mem
    rw [appended, List.mem_append, List.mem_singleton] at mem
    rcases mem with old | rfl
    · exact keyed.held g d old
    · exact named)
  refine grown.setCall c p fun h at_h => ?_
  obtain rfl := stays h at_h
  simpa [State.setGroup, same] using named

section
variable [DecidableEq K]

theorem Keyed.clearKey (keyed : Keyed key s) (k : K) : Keyed key (s.setKey k none) :=
  { keyed with
    mapped := by
      intro k' g found
      by_cases same : k' = k
      · simp [State.setKey, same] at found
      · exact keyed.mapped k' g (by simpa [State.setKey, same] using found) }

theorem Keyed.create (keyed : Keyed key s) (shape : Shape s) (k : K) :
    Keyed key (({ s with fresh := s.fresh + 1 }.setGroup s.fresh (newGroup k)).setKey
      k (some s.fresh)) := by
  have old : ∀ g, g < s.fresh → ((({ s with fresh := s.fresh + 1 }.setGroup s.fresh
      (newGroup k)).setKey k (some s.fresh)).heap g).batchKey = (s.heap g).batchKey := by
    intro g created
    simp [State.setGroup, State.setKey, Nat.ne_of_lt created]
  constructor
  · intro k' g found
    by_cases same : k' = k
    · obtain rfl : s.fresh = g := by simpa [State.setKey, State.setGroup, same] using found
      simp [State.setGroup, State.setKey, newGroup, same]
    · have found : s.groups k' = some g := by simpa [State.setKey, State.setGroup, same] using found
      rw [old g (shape.mapped k' g found)]
      exact keyed.mapped k' g found
  · intro c g at_g
    rw [old g (shape.callGroup c g at_g)]
    exact keyed.callGroup c g at_g
  · intro g c mem
    by_cases same : g = s.fresh
    · simp [State.setGroup, State.setKey, newGroup, BatchGroup.held, same] at mem
    · simpa [State.setGroup, State.setKey, same] using
        keyed.held g c (by simpa [State.setGroup, State.setKey, same] using mem)
  · exact keyed.taken

theorem keyed_step (keyed : Keyed key s) (shape : Shape s)
    (tr : Transition maxBatchSize key s a t) : Keyed key t := by
  have named {c : CallId} {g : GroupId} {p : CallPoint} (point : s.calls c = p)
      (at_g : p.group = some g) : (s.heap g).batchKey = key c := keyed.callGroup c g (point ▸ at_g)
  have regroup (g : GroupId) (b : BatchGroup K) (same : b.batchKey = (s.heap g).batchKey)
      (held : b.held = (s.heap g).held) : Keyed key (s.setGroup g b) :=
    keyed.setGroup g b same fun c mem => keyed.held g c (held ▸ mem)
  cases tr with
  | invoke c | reject c | proceed c | missed c | retry c | cancel c =>
    exact keyed.setCall c _ (by simp [CallPoint.group])
  | receive c result =>
    have same : Keyed key { s with channel := Function.update s.channel c none } := { keyed with }
    exact same.setCall c _ (by simp [CallPoint.group])
  | found c g point mapped =>
    refine keyed.setCall c _ fun h at_h => ?_
    cases at_h
    exact keyed.mapped _ g mapped
  | created c point =>
    refine (keyed.create shape (key c)).setCall c _ fun h at_h => ?_
    cases at_h
    simp [State.setGroup, State.setKey, newGroup]
  | first c g point empty =>
    exact keyed.append (by simp [point, CallPoint.group]) rfl (by simp [BatchGroup.held, empty])
      (by simp [CallPoint.group])
  | fill c g requests point held | join c g requests point held =>
    exact keyed.append (by simp [point, CallPoint.group]) rfl (by simp [BatchGroup.held, held])
      (by simp [CallPoint.group, eq_comm])
  | delete c g point =>
    have unlocked := (keyed.clearKey (key c)).setGroup g { s.heap g with locked := false } rfl
      (keyed.held g)
    refine unlocked.setCall c _ fun h at_h => ?_
    cases at_h
    simpa [State.setGroup, State.setKey] using named point rfl
  | stop c g point =>
    have stopped := regroup g { s.heap g with
      timer := if (s.heap g).timer = .armed then .stopped else (s.heap g).timer } rfl rfl
    refine stopped.setCall c _ fun h at_h => ?_
    cases at_h
    simpa [State.setGroup] using named point rfl
  | spawn c g point =>
    have started : Keyed key (s.setRun (.full c) g .loadClosed) := { keyed with }
    exact started.setCall c _ (by simp [CallPoint.group])
  | fire g armed => exact { regroup g { s.heap g with timer := .fired } rfl rfl with }
  | take r g running =>
    have recorded : Keyed key { s with taken := Function.update s.taken r (s.heap g).held } :=
      { keyed with
        taken := by
          intro q c mem d mem'
          by_cases same : q = r
          · subst q
            simp only [Function.update_self] at mem mem'
            rw [← keyed.held g c mem, keyed.held g d mem']
          · simp only [Function.update_of_ne same] at mem mem'
            exact keyed.taken q c mem d mem' }
    exact { recorded.setGroup g { s.heap g with requests := none }
      rfl (by simp [BatchGroup.held]) with }
  | compareAndDelete r g requests running =>
    split
    · exact { keyed.clearKey (s.heap g).batchKey with }
    · exact { keyed with }
  | enter | readClosed | answered | answer | delivered | deliver | execute | close =>
    exact { keyed with }

end

/-- What is in hand of a run, and what was executed, was queued by its call. -/
structure Joined (s : State K) : Prop where
  slice : ∀ r g p, s.runs r = some ⟨g, p⟩ → ∀ c ∈ p.slice, (s.calls c).queued = true
  executed : ∀ c ∈ s.executed, (s.calls c).queued = true

theorem joined_init (k : K) : Joined (init k) := by
  constructor <;> simp [init]

theorem Joined.setCall (joined : Joined s) (c : CallId) (p : CallPoint)
    (stays : (s.calls c).queued = true → p.queued = true) : Joined (s.setCall c p) := by
  have kept : ∀ d, (s.calls d).queued = true → ((s.setCall c p).calls d).queued = true := by
    intro d queued
    by_cases same : d = c
    · subst d
      simpa [State.setCall] using stays queued
    · simpa [State.setCall, same] using queued
  exact ⟨fun r g p running d mem => kept d (joined.slice r g p running d mem),
    fun d mem => kept d (joined.executed d mem)⟩

theorem Joined.setRun (joined : Joined s) (r : RunId) (g : GroupId) (p : RunPoint)
    (queued : ∀ c ∈ p.slice, (s.calls c).queued = true) : Joined (s.setRun r g p) :=
  { joined with
    slice := by
      intro q h o running
      by_cases same : q = r
      · obtain ⟨-, rfl⟩ : g = h ∧ p = o := by simpa [State.setRun, same] using running
        exact queued
      · exact joined.slice q h o (by simpa [State.setRun, same] using running) }

theorem joined_step [DecidableEq K] (joined : Joined s) (located : Located place s)
    (tr : Transition maxBatchSize key s a t) : Joined t := by
  have read (g : GroupId) : ∀ c ∈ (s.heap g).requests.getD [], (s.calls c).queued = true :=
    fun c mem => located.queued mem
  cases tr with
  | invoke c point | reject c point | proceed c point | missed c point | retry c g point
  | first c g point | fill c g requests point | join c g requests point | cancel c point
  | created c point | delete c g point | stop c g point | receive c result point =>
    exact Joined.setCall (by first | exact joined | exact { joined with }) c _
      (by simp [point, CallPoint.queued, State.setKey, State.setGroup])
  | found c g point =>
    refine joined.setCall c _ ?_
    rcases point with point | point <;> simp [point, CallPoint.queued]
  | spawn c g point =>
    exact (joined.setRun (.full c) g .loadClosed (by simp [RunPoint.slice])).setCall c _
      (by simp [CallPoint.queued])
  | fire g armed =>
    have same : Joined (s.setGroup g { s.heap g with timer := .fired }) := { joined with }
    exact same.setRun (.timer g) g .loadClosed (by simp [RunPoint.slice])
  | enter r g running =>
    exact joined.setRun r g _ (by split <;> simp [RunPoint.slice])
  | readClosed r g running => exact joined.setRun r g _ (read g)
  | answered r g running | delivered r g running =>
    exact joined.setRun r g _ (by simp [RunPoint.slice])
  | answer r g c rest running =>
    have same : Joined (s.send c (.failed .managerClosed)) := { joined with }
    exact same.setRun r g _ fun d mem => joined.slice r g _ running d (List.mem_cons_of_mem _ mem)
  | deliver r g c result rest running =>
    have same : Joined (s.send c result) := { joined with }
    exact same.setRun r g _ fun d mem => joined.slice r g _ running d (List.mem_cons_of_mem _ mem)
  | take r g running =>
    have same :
      Joined ({ s with taken := Function.update s.taken r ((s.heap g).requests.getD []) }.setGroup g
        { s.heap g with requests := none }) := { joined with }
    exact same.setRun r g _ (read g)
  | compareAndDelete r g requests running =>
    have kept : ∀ c ∈ (if requests = [] then RunPoint.done else .execute requests).slice,
        (s.calls c).queued = true := by
      split
      · simp [RunPoint.slice]
      · intro c mem
        exact joined.slice r g _ running c mem
    split
    · have cleared : Joined (s.setKey (s.heap g).batchKey none) := { joined with }
      exact cleared.setRun r g _ kept
    · exact joined.setRun r g _ kept
  | execute r g requests results running =>
    have queued := joined.slice r g _ running
    have grown : Joined { s with executed := s.executed ++ requests } :=
      { joined with
        executed := by
          intro c mem
          rcases List.mem_append.mp mem with old | new
          · exact joined.executed c old
          · exact queued c new }
    refine grown.setRun r g _ fun c mem => ?_
    obtain ⟨⟨d, result⟩, pair, rfl⟩ := List.mem_map.mp mem
    exact queued d (List.of_mem_zip pair).1
  | close => exact { joined with }

end TQDBProxy.WriteBatchManager
