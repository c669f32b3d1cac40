import Mathlib.Data.List.Nodup
import TQDBProxy.WriteBatchManager

/-! What holds in every reachable state of the write-batch manager, with or
without Close: references point to created groups, one timer starts one run,
and every queued request is in exactly one place, the group it was appended to
or the slice of the run that took it. -/

namespace TQDBProxy.WriteBatchManager

open GuardedRuns

def CallPoint.group : CallPoint → Option GroupId
  | .lockGroup g | .deleteGroup g | .stopTimer g | .spawn g => some g
  | _ => none

def CallPoint.queued : CallPoint → Bool
  | .deleteGroup _ | .stopTimer _ | .spawn _ | .wait | .returned _ => true
  | _ => false

def CallPoint.settled : CallPoint → Bool
  | .wait | .returned _ => true
  | _ => false

def BatchGroup.held {K : Type} (b : BatchGroup K) : List CallId := b.requests.getD []

def RunPoint.slice : RunPoint → List CallId
  | .answer requests | .compareAndDelete requests | .execute requests => requests
  | .deliver results => results.map Prod.fst
  | _ => []

variable {K : Type} {maxBatchSize : Nat} {key : CallId → K} {s t : State K} {a : Action}

/-- References point to created groups, a timer starts one run, and a call
starts its run last. -/
structure Shape (s : State K) : Prop where
  unused : ∀ g, s.fresh ≤ g → (s.heap g).requests = some []
  mapped : ∀ k g, s.groups k = some g → g < s.fresh
  callGroup : ∀ c g, (s.calls c).group = some g → g < s.fresh
  runGroup : ∀ r g p, s.runs r = some ⟨g, p⟩ → g < s.fresh
  emptyUnset : ∀ g, (s.heap g).requests = some [] → (s.heap g).timer = .unset
  timerFired : ∀ g, s.runs (.timer g) ≠ none → (s.heap g).timer = .fired
  fullSettled : ∀ c, s.runs (.full c) ≠ none → (s.calls c).settled = true

theorem shape_init (k : K) : Shape (init k) := by
  constructor <;> simp [init, newGroup, CallPoint.group]

theorem Shape.setCall (shape : Shape s) (c : CallId) (p : CallPoint)
    (created : ∀ g, p.group = some g → g < s.fresh)
    (settled : s.runs (.full c) ≠ none → p.settled = true) : Shape (s.setCall c p) where
  unused := shape.unused
  mapped := shape.mapped
  callGroup d g := by
    by_cases same : d = c
    · subst d
      simpa [State.setCall] using created g
    · simpa [State.setCall, same] using shape.callGroup d g
  runGroup := shape.runGroup
  emptyUnset := shape.emptyUnset
  timerFired := shape.timerFired
  fullSettled d running := by
    by_cases same : d = c
    · subst d
      simpa [State.setCall] using settled running
    · simpa [State.setCall, same] using shape.fullSettled d running

theorem Shape.setRun (shape : Shape s) (r : RunId) (g : GroupId) (p : RunPoint)
    (created : g < s.fresh) (timer : ∀ h, r = .timer h → (s.heap h).timer = .fired)
    (full : ∀ c, r = .full c → (s.calls c).settled = true) : Shape (s.setRun r g p) where
  unused := shape.unused
  mapped := shape.mapped
  callGroup := shape.callGroup
  runGroup q h point running := by
    by_cases same : q = r
    · obtain ⟨rfl, _⟩ : g = h ∧ p = point := by
        simpa [State.setRun, same] using running
      exact created
    · exact shape.runGroup q h point (by simpa [State.setRun, same] using running)
  emptyUnset := shape.emptyUnset
  timerFired h running := by
    by_cases same : RunId.timer h = r
    · exact timer h same.symm
    · exact shape.timerFired h (by simpa [State.setRun, same] using running)
  fullSettled c running := by
    by_cases same : RunId.full c = r
    · exact full c same.symm
    · exact shape.fullSettled c (by simpa [State.setRun, same] using running)

theorem Shape.moveRun (shape : Shape s) {r : RunId} {g : GroupId} {q : RunPoint}
    (running : s.runs r = some ⟨g, q⟩) (p : RunPoint) : Shape (s.setRun r g p) := by
  refine shape.setRun r g p (shape.runGroup r g q running) ?_ ?_
  · rintro h rfl
    exact shape.timerFired h (by simp [running])
  · rintro c rfl
    exact shape.fullSettled c (by simp [running])

theorem Shape.setGroup (shape : Shape s) (g : GroupId) (b : BatchGroup K)
    (created : g < s.fresh) (empty : b.requests = some [] → b.timer = .unset)
    (fired : s.runs (.timer g) ≠ none → b.timer = .fired) : Shape (s.setGroup g b) where
  unused h above := by
    have other : h ≠ g := fun same => absurd created (Nat.not_lt.mpr (same ▸ above))
    simpa [State.setGroup, other] using shape.unused h above
  mapped := shape.mapped
  callGroup := shape.callGroup
  runGroup := shape.runGroup
  emptyUnset h := by
    by_cases same : h = g
    · subst h
      simpa [State.setGroup] using empty
    · simpa [State.setGroup, same] using shape.emptyUnset h
  timerFired h running := by
    by_cases same : h = g
    · subst h
      simpa [State.setGroup] using fired running
    · simpa [State.setGroup, same] using shape.timerFired h running
  fullSettled := shape.fullSettled

theorem Shape.noFull (shape : Shape s) {c : CallId} (unsettled : (s.calls c).settled = false) :
    s.runs (.full c) = none := by
  by_contra running
  rw [shape.fullSettled c running] at unsettled
  cases unsettled

theorem Shape.noTimer (shape : Shape s) {g : GroupId} (pending : (s.heap g).timer ≠ .fired) :
    s.runs (.timer g) = none := by
  by_contra running
  exact pending (shape.timerFired g running)

section
variable [DecidableEq K]

theorem Shape.clearKey (shape : Shape s) (k : K) : Shape (s.setKey k none) :=
  { shape with
    mapped := by
      intro k' g found
      by_cases same : k' = k
      · simp [State.setKey, same] at found
      · exact shape.mapped k' g (by simpa [State.setKey, same] using found) }

theorem Shape.create (shape : Shape s) (k : K) :
    Shape (({ s with fresh := s.fresh + 1 }.setGroup s.fresh (newGroup k)).setKey
      k (some s.fresh)) where
  unused g above := by
    have other : g ≠ s.fresh := by
      rintro rfl
      exact absurd above (Nat.not_succ_le_self _)
    simpa [State.setGroup, State.setKey, other] using
      shape.unused g (Nat.le_of_succ_le above)
  mapped k' g found := by
    by_cases same : k' = k
    · obtain rfl : s.fresh = g := by simpa [State.setKey, State.setGroup, same] using found
      exact Nat.lt_succ_self _
    · exact Nat.lt_succ_of_lt
        (shape.mapped k' g (by simpa [State.setKey, State.setGroup, same] using found))
  callGroup c g at_g := Nat.lt_succ_of_lt (shape.callGroup c g at_g)
  runGroup r g p running := Nat.lt_succ_of_lt (shape.runGroup r g p running)
  emptyUnset g := by
    by_cases same : g = s.fresh
    · simp [State.setGroup, State.setKey, same, newGroup]
    · simpa [State.setGroup, State.setKey, same] using shape.emptyUnset g
  timerFired g running := by
    have other : g ≠ s.fresh := by
      rintro rfl
      have unset := shape.emptyUnset _ (shape.unused s.fresh (Nat.le_refl _))
      rw [shape.timerFired s.fresh running] at unset
      cases unset
    simpa [State.setGroup, State.setKey, other] using shape.timerFired g running
  fullSettled := shape.fullSettled

theorem shape_step (shape : Shape s) (tr : Transition maxBatchSize key s a t) : Shape t := by
  have created {c : CallId} {g : GroupId} {p : CallPoint} (point : s.calls c = p)
      (at_g : p.group = some g) : g < s.fresh := shape.callGroup c g (point ▸ at_g)
  cases tr with
  | invoke c point | reject c point | proceed c point | missed c point | retry c g point =>
    exact shape.setCall c _ (by simp [CallPoint.group])
      (by simp [shape.noFull, point, CallPoint.settled])
  | found c g point mapped =>
    refine shape.setCall c _ ?_ ?_
    · rintro h ⟨⟩
      exact shape.mapped _ g mapped
    · rcases point with point | point <;> simp [shape.noFull, point, CallPoint.settled]
  | created c point =>
    refine (shape.create (key c)).setCall c _ ?_ ?_
    · rintro g ⟨⟩
      exact Nat.lt_succ_self _
    · simp [shape.noFull, point, CallPoint.settled, State.setKey, State.setGroup]
  | first c g point empty =>
    have appended := shape.setGroup g { s.heap g with requests := some [c], timer := .armed }
      (created point rfl) (by simp) (by simp [shape.noTimer, shape.emptyUnset g empty])
    exact appended.setCall c _ (by simp [CallPoint.group]) (by simp [CallPoint.settled])
  | fill c g requests point held =>
    have appended := shape.setGroup g
      { s.heap g with requests := some (requests ++ [c]), locked := true }
      (created point rfl) (by simp) (shape.timerFired g)
    refine appended.setCall c _ ?_ ?_
    · rintro h ⟨⟩
      exact created point rfl
    · simp [shape.noFull, point, CallPoint.settled, State.setGroup]
  | join c g requests point held =>
    have appended := shape.setGroup g { s.heap g with requests := some (requests ++ [c]) }
      (created point rfl) (by simp) (shape.timerFired g)
    exact appended.setCall c _ (by simp [CallPoint.group]) (by simp [CallPoint.settled])
  | delete c g point =>
    have unlocked := (shape.clearKey (key c)).setGroup g { s.heap g with locked := false }
      (created point rfl) (shape.emptyUnset g) (shape.timerFired g)
    refine unlocked.setCall c _ ?_ ?_
    · rintro h ⟨⟩
      exact created point rfl
    · simp [shape.noFull, point, CallPoint.settled, State.setGroup, State.setKey]
  | stop c g point =>
    refine (shape.setGroup g _ (created point rfl) ?_ ?_).setCall c _ ?_ ?_
    · intro empty
      simp [shape.emptyUnset g empty]
    · intro running
      simp [shape.timerFired g running]
    · rintro h ⟨⟩
      exact created point rfl
    · simp [shape.noFull, point, CallPoint.settled, State.setGroup]
  | spawn c g point =>
    have waiting := shape.setCall c .wait (by simp [CallPoint.group]) (by simp [CallPoint.settled])
    exact waiting.setRun (.full c) g .loadClosed (created point rfl) (by simp)
      (by rintro d ⟨⟩; simp [State.setCall, CallPoint.settled])
  | receive c result point =>
    have same : Shape { s with channel := Function.update s.channel c none } := { shape with }
    exact same.setCall c _ (by simp [CallPoint.group]) (by simp [CallPoint.settled])
  | cancel c point =>
    exact shape.setCall c _ (by simp [CallPoint.group]) (by simp [CallPoint.settled])
  | fire g armed =>
    have used : g < s.fresh := by
      by_contra above
      rw [shape.emptyUnset g (shape.unused g (Nat.le_of_not_lt above))] at armed
      cases armed
    have fired := shape.setGroup g { s.heap g with timer := .fired } used
      (fun empty => by rw [shape.emptyUnset g empty] at armed; cases armed) (fun _ => rfl)
    exact fired.setRun (.timer g) g .loadClosed used
      (by rintro h ⟨⟩; simp [State.setGroup]) (by simp)
  | enter r g running | readClosed r g running | answered r g running | delivered r g running =>
    exact shape.moveRun running _
  | answer r g c rest running =>
    have same : Shape (s.send c (.failed .managerClosed)) := { shape with }
    exact same.moveRun running _
  | deliver r g c result rest running =>
    have same : Shape (s.send c result) := { shape with }
    exact same.moveRun running _
  | take r g running =>
    have same : Shape { s with taken := Function.update s.taken r ((s.heap g).requests.getD []) } :=
      { shape with }
    have emptied := same.setGroup g { s.heap g with requests := none }
      (shape.runGroup r g _ running) (by simp) (shape.timerFired g)
    exact emptied.moveRun running _
  | compareAndDelete r g requests running =>
    split
    · exact (shape.clearKey _).moveRun running _
    · exact shape.moveRun running _
  | execute r g requests results running =>
    have same : Shape { s with executed := s.executed ++ requests } := { shape with }
    exact same.moveRun running _
  | close => exact { shape with }

end

inductive Place where
  | nowhere
  | group (g : GroupId)
  | taken (r : RunId)
  deriving DecidableEq

/-- Every group and every taken slice holds only requests placed there, each
once, so no request is in two of them. -/
structure Located (place : CallId → Place) (s : State K) : Prop where
  held : ∀ g, ∀ c ∈ (s.heap g).held, place c = .group g
  taken : ∀ r, ∀ c ∈ s.taken r, place c = .taken r
  outside : ∀ c, (s.calls c).queued = false → place c = .nowhere
  heldNodup : ∀ g, (s.heap g).held.Nodup
  takenNodup : ∀ r, (s.taken r).Nodup

theorem located_init (k : K) : Located (fun _ => .nowhere) (init k) := by
  constructor <;> simp [init, newGroup, BatchGroup.held]

variable {place : CallId → Place}

theorem Located.setCall (located : Located place s) (c : CallId) (p : CallPoint)
    (same : p.queued = false → (s.calls c).queued = false) : Located place (s.setCall c p) where
  held := located.held
  taken := located.taken
  outside d out := by
    by_cases eq : d = c
    · subst d
      exact located.outside c (same (by simpa [State.setCall] using out))
    · exact located.outside d (by simpa [State.setCall, eq] using out)
  heldNodup := located.heldNodup
  takenNodup := located.takenNodup

theorem Located.setRun (located : Located place s) (r : RunId) (g : GroupId) (p : RunPoint) :
    Located place (s.setRun r g p) := { located with }

theorem Located.setGroup (located : Located place s) (g : GroupId) (b : BatchGroup K)
    (same : b.held = [] ∨ b.held = (s.heap g).held) : Located place (s.setGroup g b) where
  held h c mem := by
    by_cases eq : h = g
    · subst h
      have mem : c ∈ b.held := by simpa [State.setGroup] using mem
      rcases same with none | same
      · simp [none] at mem
      · exact located.held g c (same ▸ mem)
    · exact located.held h c (by simpa [State.setGroup, eq] using mem)
  taken := located.taken
  outside := located.outside
  heldNodup h := by
    by_cases eq : h = g
    · subst h
      rcases same with none | same
      · simp [State.setGroup, none]
      · simpa [State.setGroup, same] using located.heldNodup g
    · simpa [State.setGroup, eq] using located.heldNodup h
  takenNodup := located.takenNodup

theorem Located.append (located : Located place s) {c : CallId} {g : GroupId} {b : BatchGroup K}
    {p : CallPoint} (out : (s.calls c).queued = false)
    (appended : b.held = (s.heap g).held ++ [c]) (queued : p.queued = true) :
    Located (Function.update place c (.group g)) ((s.setGroup g b).setCall c p) := by
  have nowhere := located.outside c out
  have absent : ∀ h, c ∉ (s.heap h).held := fun h mem => by
    rw [located.held h c mem] at nowhere
    cases nowhere
  constructor
  · intro h d mem
    by_cases eq : d = c
    · subst d
      by_cases eq : h = g
      · simp [eq]
      · exact absurd (by simpa [State.setGroup, State.setCall, eq] using mem) (absent h)
    · rw [Function.update_of_ne eq]
      apply located.held h d
      by_cases group : h = g
      · subst h
        simpa [State.setGroup, State.setCall, appended, eq] using mem
      · simpa [State.setGroup, State.setCall, group] using mem
  · intro r d mem
    have eq : d ≠ c := by
      rintro rfl
      rw [located.taken r d mem] at nowhere
      cases nowhere
    rw [Function.update_of_ne eq]
    exact located.taken r d mem
  · intro d out
    have eq : d ≠ c := by
      rintro rfl
      simp [State.setCall, queued] at out
    rw [Function.update_of_ne eq]
    exact located.outside d (by simpa [State.setCall, State.setGroup, eq] using out)
  · intro h
    by_cases eq : h = g
    · subst h
      have fresh := List.nodup_append.mpr
        ⟨located.heldNodup g, List.nodup_singleton c, fun d mem e single => by
          obtain rfl := List.mem_singleton.mp single
          exact fun eq => absent g (eq ▸ mem)⟩
      simpa [State.setGroup, State.setCall, appended] using fresh
    · simpa [State.setGroup, State.setCall, eq] using located.heldNodup h
  · exact located.takenNodup

theorem Located.elsewhere (located : Located place s) {g h : GroupId} (other : h ≠ g) :
    ∀ c ∈ (s.heap h).held, c ∉ (s.heap g).held := by
  intro c mem mem'
  exact other (Place.group.inj ((located.held h c mem).symm.trans (located.held g c mem')))

theorem Located.queued_of_place (located : Located place s) {c : CallId}
    (somewhere : place c ≠ .nowhere) : (s.calls c).queued = true := by
  by_contra out
  exact somewhere (located.outside c (by simpa using out))

theorem Located.queued (located : Located place s) {g : GroupId} {c : CallId}
    (mem : c ∈ (s.heap g).held) : (s.calls c).queued = true :=
  located.queued_of_place (by simp [located.held g c mem])

theorem Located.queued_of_taken (located : Located place s) {r : RunId} {c : CallId}
    (mem : c ∈ s.taken r) : (s.calls c).queued = true :=
  located.queued_of_place (by simp [located.taken r c mem])

theorem Located.take (located : Located place s) {r : RunId} {g : GroupId} {b : BatchGroup K}
    (emptied : b.held = []) :
    Located (fun c => if c ∈ (s.heap g).held then .taken r else place c)
      ({ s with taken := Function.update s.taken r (s.heap g).held }.setGroup g b) := by
  constructor
  · intro h c mem
    by_cases eq : h = g
    · simp [State.setGroup, eq, emptied] at mem
    · have mem : c ∈ (s.heap h).held := by simpa [State.setGroup, eq] using mem
      simp only [located.elsewhere eq c mem, if_false]
      exact located.held h c mem
  · intro q c mem
    by_cases eq : q = r
    · subst q
      have mem : c ∈ (s.heap g).held := by simpa [State.setGroup] using mem
      simp [mem]
    · have mem : c ∈ s.taken q := by simpa [State.setGroup, eq] using mem
      have absent : c ∉ (s.heap g).held := fun mem' => by
        have clash := (located.taken q c mem).symm.trans (located.held g c mem')
        cases clash
      simp only [absent, if_false]
      exact located.taken q c mem
  · intro c out
    have nowhere := located.outside c out
    have absent : c ∉ (s.heap g).held := fun mem => by
      rw [located.held g c mem] at nowhere
      cases nowhere
    simp only [absent, if_false]
    exact nowhere
  · intro h
    by_cases eq : h = g
    · simp [State.setGroup, eq, emptied]
    · simpa [State.setGroup, eq] using located.heldNodup h
  · intro q
    by_cases eq : q = r
    · subst q
      simpa [State.setGroup] using located.heldNodup g
    · simpa [State.setGroup, eq] using located.takenNodup q

theorem located_step [DecidableEq K] (located : Located place s)
    (tr : Transition maxBatchSize key s a t) :
    ∃ place', Located place' t := by
  cases tr with
  | invoke c point | reject c point | proceed c point | missed c point | retry c g point
  | spawn c g point =>
    refine ⟨place, ?_⟩
    exact Located.setCall (by first | exact located | exact { located with }) c _
      (by simp [point, CallPoint.queued])
  | receive c result point =>
    have same : Located place { s with channel := Function.update s.channel c none } :=
      { located with }
    exact ⟨place, same.setCall c _ (by simp [CallPoint.queued])⟩
  | cancel c point => exact ⟨place, located.setCall c _ (by simp [CallPoint.queued])⟩
  | found c g point =>
    refine ⟨place, located.setCall c _ fun _ => ?_⟩
    rcases point with point | point <;> simp [point, CallPoint.queued]
  | created c point =>
    have same : Located place { s with fresh := s.fresh + 1 } := { located with }
    have created := same.setGroup s.fresh (newGroup (key c)) (.inl rfl)
    have stored : Located place (({ s with fresh := s.fresh + 1 }.setGroup s.fresh
      (newGroup (key c))).setKey (key c) (some s.fresh)) := { created with }
    exact ⟨place,
      stored.setCall c _ (by simp [point, CallPoint.queued, State.setKey, State.setGroup])⟩
  | first c g point empty =>
    exact ⟨_, located.append (by simp [point, CallPoint.queued])
      (by simp [BatchGroup.held, empty]) rfl⟩
  | fill c g requests point held | join c g requests point held =>
    exact ⟨_, located.append (by simp [point, CallPoint.queued])
      (by simp [BatchGroup.held, held]) rfl⟩
  | delete c g point =>
    have cleared : Located place (s.setKey (key c) none) := { located with }
    have unlocked := cleared.setGroup g { s.heap g with locked := false } (.inr rfl)
    exact ⟨place, unlocked.setCall c _ (by simp [CallPoint.queued])⟩
  | stop c g point =>
    have stopped := located.setGroup g { s.heap g with
      timer := if (s.heap g).timer = .armed then .stopped else (s.heap g).timer } (.inr rfl)
    exact ⟨place, stopped.setCall c _ (by simp [CallPoint.queued])⟩
  | fire g armed =>
    exact ⟨place, (located.setGroup g { s.heap g with timer := .fired } (.inr rfl)).setRun _ _ _⟩
  | take r g running =>
    exact ⟨_, (located.take (b := { s.heap g with requests := none }) rfl).setRun r g _⟩
  | compareAndDelete r g requests running =>
    refine ⟨place, ?_⟩
    split
    · have cleared : Located place (s.setKey (s.heap g).batchKey none) := { located with }
      exact cleared.setRun r g _
    · exact located.setRun r g _
  | enter | readClosed | answered | answer | delivered | deliver | execute | close =>
    exact ⟨place, { located with }⟩

section
variable [DecidableEq K] {k : K}

theorem reach_shape {guard : State K → Action → Prop}
    (reach : Reach (step maxBatchSize key) guard (init k) s) : Shape s :=
  reach.invariant (shape_init k) fun _ _ _ shape _ taken => shape_step shape (step_transition taken)

theorem reach_located {guard : State K → Action → Prop}
    (reach : Reach (step maxBatchSize key) guard (init k) s) : ∃ place, Located place s :=
  reach.invariant (P := fun s => ∃ place, Located place s) ⟨_, located_init k⟩
    fun _ _ _ ⟨_, located⟩ _ taken => located_step located (step_transition taken)

def started : List Action → List RunId
  | [] => []
  | .fire g :: rest => .timer g :: started rest
  | .call c :: rest => .full c :: started rest
  | _ :: rest => started rest

theorem mem_started {as : List Action} {r : RunId} :
    (∃ g, Action.fire g ∈ as ∧ r = .timer g) ∨ (∃ c, Action.call c ∈ as ∧ r = .full c) →
      r ∈ started as := by
  induction as with
  | nil => simp
  | cons a rest ih =>
    rintro (⟨g, mem, rfl⟩ | ⟨c, mem, rfl⟩)
    all_goals
      rcases List.mem_cons.mp mem with rfl | mem
      · simp [started]
      · have later := ih (by simp [mem])
        cases a <;> simp [started, later]

theorem runs_started {as : List Action} (mem : a ∈ as)
    (known : ∀ r, r ∉ started as → s.runs r = none) (taken : step maxBatchSize key s a = some t) :
    ∀ r, r ∉ started as → t.runs r = none := by
  intro r out
  have idle := known r out
  have move {r' : RunId} {g : GroupId} {p : RunPoint} (running : s.runs r' = some ⟨g, p⟩) :
      r ≠ r' := by
    rintro rfl
    simp [idle] at running
  cases step_transition taken with
  | spawn c g point =>
    have other : r ≠ .full c := fun eq => out (mem_started (.inr ⟨c, mem, eq⟩))
    simpa [State.setCall, State.setRun, other] using idle
  | fire g armed =>
    have other : r ≠ .timer g := fun eq => out (mem_started (.inl ⟨g, mem, eq⟩))
    simpa [State.setGroup, State.setRun, other] using idle
  | compareAndDelete r' g requests running =>
    split <;> simpa [State.setKey, State.setRun, move running] using idle
  | enter r' g running | readClosed r' g running | answered r' g running
  | delivered r' g running | answer r' g _ _ running | deliver r' g _ _ _ running
  | take r' g running | execute r' g _ _ running =>
    simpa [State.send, State.setGroup, State.setRun, move running] using idle
  | _ => exact idle

theorem absent_step {c : CallId} (absent : s.calls c = .absent) (out : a ≠ .invoke c)
    (tr : Transition maxBatchSize key s a t) : t.calls c = .absent := by
  have move {d : CallId} {p : CallPoint} (point : s.calls d = p) (present : p ≠ .absent) :
      c ≠ d := by
    rintro rfl
    exact present (point.symm.trans absent)
  cases tr with
  | invoke d point =>
    have other : c ≠ d := by
      rintro rfl
      exact out rfl
    simpa [State.setCall, other] using absent
  | found d g point =>
    have other : c ≠ d := by
      rcases point with point | point <;> exact move point (by simp)
    simpa [State.setCall, other] using absent
  | compareAndDelete r g requests running =>
    split <;> simpa [State.setKey, State.setRun] using absent
  | reject d point | proceed d point | missed d point | created d point | retry d _ point
  | first d _ point | fill d _ _ point | join d _ _ point | delete d _ point | stop d _ point
  | spawn d _ point | receive d _ point | cancel d point =>
    simpa [State.setCall, State.setGroup, State.setKey, State.setRun, move point (by simp)]
      using absent
  | _ => exact absent

theorem calls_invoked {as : List Action} (mem : a ∈ as)
    (known : ∀ c, .invoke c ∉ as → s.calls c = .absent)
    (taken : step maxBatchSize key s a = some t) :
    ∀ c, .invoke c ∉ as → t.calls c = .absent := by
  intro c out
  refine absent_step (known c out) ?_ (step_transition taken)
  rintro rfl
  exact out mem

end

end TQDBProxy.WriteBatchManager
