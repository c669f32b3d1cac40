import TQDBProxy.WriteBatchCustody

/-! Something is always pending for a queued request: an armed timer, a call about to spawn
its run, or a run that has not left its critical section for the open branch. A closed
branch answers what it read and leaves the group in place, so a request appended later
has nothing pending; the guard `noLateAppend` excludes such appends. -/

namespace TQDBProxy.WriteBatchManager

open GuardedRuns

def CallPoint.spawning : CallPoint → Option GroupId
  | .deleteGroup g | .stopTimer g | .spawn g => some g
  | _ => none

def RunPoint.willRead : RunPoint → Bool
  | .loadClosed | .readClosed | .take => true
  | _ => false

variable {K : Type} {maxBatchSize : Nat} {key : CallId → K} {s t : State K} {a : Action}

/-- An armed timer, a call about to spawn, or a run that will still read. -/
def Triggered (s : State K) (g : GroupId) : Prop :=
  (s.heap g).timer = .armed ∨ (∃ c, (s.calls c).spawning = some g) ∨
    ∃ r p, s.runs r = some ⟨g, p⟩ ∧ p.willRead = true

def Attention (s : State K) : Prop :=
  ∀ g, (s.heap g).held ≠ [] → Triggered s g ∨ Answered s g

theorem attention_init (k : K) : Attention (init k) := by
  intro g held
  simp [init, newGroup, BatchGroup.held] at held

theorem Triggered.setCall {g : GroupId} (trigger : Triggered s g) (c : CallId) (p : CallPoint)
    (kept : (s.calls c).spawning = some g → p.spawning = some g) : Triggered (s.setCall c p) g := by
  rcases trigger with armed | ⟨d, spawning⟩ | running
  · exact .inl armed
  · refine .inr (.inl ⟨d, ?_⟩)
    by_cases eq : d = c
    · subst d
      simpa [State.setCall] using kept spawning
    · simpa [State.setCall, eq] using spawning
  · exact .inr (.inr running)

theorem Attention.setCall (attention : Attention s) (c : CallId) (p : CallPoint)
    (kept : ∀ g, (s.calls c).spawning = some g → p.spawning = some g) :
    Attention (s.setCall c p) := by
  intro g held
  rcases attention g held with trigger | answered
  · exact .inl (trigger.setCall c p (kept g))
  · exact .inr answered

theorem Attention.setGroup (attention : Attention s) (g : GroupId) (b : BatchGroup K)
    (pending : b.held ≠ [] → b.timer = .armed ∨ (∃ c, (s.calls c).spawning = some g) ∨
      ((s.heap g).held ≠ [] ∧ ((s.heap g).timer = .armed → b.timer = .armed))) :
    Attention (s.setGroup g b) := by
  intro h held
  by_cases eq : h = g
  · subst h
    have held : b.held ≠ [] := by simpa [State.setGroup] using held
    rcases pending held with armed | spawning | ⟨before, kept⟩
    · exact .inl (.inl (by simpa [State.setGroup] using armed))
    · exact .inl (.inr (.inl spawning))
    · rcases attention g before with (armed | spawning | running) | answered
      · exact .inl (.inl (by simpa [State.setGroup] using kept armed))
      · exact .inl (.inr (.inl spawning))
      · exact .inl (.inr (.inr running))
      · exact .inr answered
  · have held : (s.heap h).held ≠ [] := by simpa [State.setGroup, eq] using held
    rcases attention h held with (armed | spawning | running) | answered
    · exact .inl (.inl (by simpa [State.setGroup, eq] using armed))
    · exact .inl (.inr (.inl spawning))
    · exact .inl (.inr (.inr running))
    · exact .inr answered

theorem Attention.setRun (attention : Attention s) (r : RunId) (g : GroupId) (p : RunPoint)
    (kept : (s.heap g).held ≠ [] → p.willRead = true ∨ p.closedBranch = true ∨
      ∃ q, s.runs r = some ⟨g, q⟩ ∧ q.willRead = false ∧ q.closedBranch = false)
    (same : ∀ h q, s.runs r = some ⟨h, q⟩ → h = g) : Attention (s.setRun r g p) := by
  have other {r' : RunId} {h : GroupId} {q : RunPoint} (ne : r' ≠ r)
      (running : s.runs r' = some ⟨h, q⟩) : (s.setRun r g p).runs r' = some ⟨h, q⟩ := by
    simpa [State.setRun, ne] using running
  have moved : (s.setRun r g p).runs r = some ⟨g, p⟩ := by simp [State.setRun]
  intro h held
  have follow {r' : RunId} {q : RunPoint} (running : s.runs r' = some ⟨h, q⟩)
      (attends : q.willRead = true ∨ q.closedBranch = true) :
      Triggered (s.setRun r g p) h ∨ Answered (s.setRun r g p) h := by
    by_cases eq : r' = r
    · subst r'
      obtain rfl := same h q running
      rcases kept held with reads | closed | ⟨q', running', notReads, notClosed⟩
      · exact .inl (.inr (.inr ⟨r, p, moved, reads⟩))
      · exact .inr ⟨r, p, moved, closed⟩
      · obtain rfl : q' = q := by simpa [running] using running'.symm
        simp [notReads, notClosed] at attends
    · rcases attends with reads | closed
      · exact .inl (.inr (.inr ⟨r', q, other eq running, reads⟩))
      · exact .inr ⟨r', q, other eq running, closed⟩
  rcases attention h held with (armed | spawning | ⟨r', q, running, reads⟩) |
    ⟨r', q, running, closed⟩
  · exact .inl (.inl armed)
  · exact .inl (.inr (.inl spawning))
  · exact follow running (.inl reads)
  · exact follow running (.inr closed)

theorem Attention.moveRun (attention : Attention s) {r : RunId} {g : GroupId} {q : RunPoint}
    (running : s.runs r = some ⟨g, q⟩) (p : RunPoint)
    (kept : (s.heap g).held ≠ [] → p.willRead = true ∨ p.closedBranch = true ∨
      (q.willRead = false ∧ q.closedBranch = false)) : Attention (s.setRun r g p) := by
  refine attention.setRun r g p (fun held => ?_) ?_
  · rcases kept held with reads | closed | neither
    · exact .inl reads
    · exact .inr (.inl closed)
    · exact .inr (.inr ⟨q, running, neither⟩)
  · intro h q' running'
    have eq : g = h ∧ q = q' := by simpa [running] using running'
    exact eq.1.symm

theorem attention_step [DecidableEq K] (shape : Shape s) (attention : Attention s)
    (tr : Transition maxBatchSize key s a t) : Attention t := by
  cases tr with
  | invoke c point | reject c point | proceed c point | missed c point | retry c g point
  | cancel c point =>
    exact attention.setCall c _ (by simp [point, CallPoint.spawning])
  | receive c result point =>
    have drained : Attention { s with channel := Function.update s.channel c none } := attention
    exact drained.setCall c _ (by simp [point, CallPoint.spawning])
  | found c g point =>
    refine attention.setCall c _ fun h spawning => ?_
    rcases point with point | point <;> simp [point, CallPoint.spawning] at spawning
  | created c point =>
    have grown : Attention { s with fresh := s.fresh + 1 } := attention
    have created := grown.setGroup s.fresh (newGroup (key c)) (by simp [newGroup, BatchGroup.held])
    exact Attention.setCall (s := ({ s with fresh := s.fresh + 1 }.setGroup s.fresh
      (newGroup (key c))).setKey (key c) (some s.fresh)) created c _
      (by simp [point, CallPoint.spawning, State.setKey, State.setGroup])
  | first c g point empty =>
    have appended := attention.setGroup g { s.heap g with requests := some [c], timer := .armed }
      (fun _ => .inl rfl)
    exact appended.setCall c _ (by simp [point, CallPoint.spawning, State.setGroup])
  | fill c g requests point held nonempty =>
    have appended := attention.setGroup g
      { s.heap g with requests := some (requests ++ [c]), locked := true }
      (fun _ => .inr (.inr ⟨by simpa [BatchGroup.held, held] using nonempty, id⟩))
    exact appended.setCall c _ (by simp [point, CallPoint.spawning, State.setGroup])
  | join c g requests point held nonempty =>
    have appended := attention.setGroup g { s.heap g with requests := some (requests ++ [c]) }
      (fun _ => .inr (.inr ⟨by simpa [BatchGroup.held, held] using nonempty, id⟩))
    exact appended.setCall c _ (by simp [point, CallPoint.spawning, State.setGroup])
  | delete c g point =>
    have cleared : Attention (s.setKey (key c) none) := attention
    have unlocked := cleared.setGroup g { s.heap g with locked := false }
      (fun held => .inr (.inr ⟨held, id⟩))
    exact unlocked.setCall c _ (by simp [point, CallPoint.spawning, State.setGroup, State.setKey])
  | stop c g point =>
    have stopped := attention.setGroup g { s.heap g with
      timer := if (s.heap g).timer = .armed then .stopped else (s.heap g).timer }
      (fun _ => .inr (.inl ⟨c, by simp [point, CallPoint.spawning]⟩))
    exact stopped.setCall c _ (by simp [point, CallPoint.spawning, State.setGroup])
  | spawn c g point =>
    have idle := shape.noFull (c := c) (by simp [point, CallPoint.settled])
    intro h held
    by_cases eq : h = g
    · subst h
      exact .inl (.inr (.inr ⟨.full c, .loadClosed, by simp [State.setRun, State.setCall], rfl⟩))
    · have started := attention.setRun (.full c) g .loadClosed (fun _ => .inl rfl) (by simp [idle])
      rcases started h held with trigger | answered
      · exact .inl (trigger.setCall c .wait
          (by simp [point, CallPoint.spawning, State.setRun, Ne.symm eq]))
      · exact .inr answered
  | fire g armed =>
    have idle := shape.noTimer (g := g) (by simp [armed])
    have started := attention.setRun (.timer g) g .loadClosed (fun _ => .inl rfl) (by simp [idle])
    intro h held
    by_cases eq : h = g
    · subst h
      exact .inl (.inr (.inr ⟨.timer g, .loadClosed, by simp [State.setRun], rfl⟩))
    · have held' : ((s.setRun (.timer g) g .loadClosed).heap h).held ≠ [] := by
        simpa [State.setGroup, State.setRun, eq] using held
      rcases started h held' with (armed | spawning | running) | answered
      · exact .inl (.inl (by simpa [State.setGroup, State.setRun, eq] using armed))
      · exact .inl (.inr (.inl spawning))
      · exact .inl (.inr (.inr running))
      · exact .inr answered
  | enter r g running =>
    refine attention.moveRun running _ fun _ => .inl ?_
    cases s.closed <;> rfl
  | readClosed r g running | answered r g running =>
    exact attention.moveRun running _ fun _ => .inr (.inl rfl)
  | answer r g c rest running =>
    have sent : Attention (s.send c (.failed .managerClosed)) := attention
    exact sent.moveRun running _ fun _ => .inr (.inl rfl)
  | take r g running =>
    have emptied := attention.setGroup g { s.heap g with requests := none }
      (by simp [BatchGroup.held])
    exact Attention.moveRun (s := { s with
      taken := Function.update s.taken r ((s.heap g).requests.getD []) }.setGroup g
        { s.heap g with requests := none }) emptied running _
      (by simp [State.setGroup, BatchGroup.held])
  | compareAndDelete r g requests running =>
    split
    · have cleared : Attention (s.setKey (s.heap g).batchKey none) := attention
      exact cleared.moveRun running _ fun _ => .inr (.inr ⟨rfl, rfl⟩)
    · exact attention.moveRun running _ fun _ => .inr (.inr ⟨rfl, rfl⟩)
  | delivered r g running => exact attention.moveRun running _ fun _ => .inr (.inr ⟨rfl, rfl⟩)
  | deliver r g c result rest running =>
    have sent : Attention (s.send c result) := attention
    exact sent.moveRun running _ fun _ => .inr (.inr ⟨rfl, rfl⟩)
  | execute r g requests results running =>
    have logged : Attention { s with executed := s.executed ++ requests } := attention
    exact logged.moveRun running _ fun _ => .inr (.inr ⟨rfl, rfl⟩)
  | close => exact attention

/-- Request `c` is in a group that no closed branch has read, or a run holds it. -/
def InHand (s : State K) (c : CallId) : Prop :=
  (∃ g, c ∈ (s.heap g).held ∧ ¬ Answered s g) ∨
    ∃ r g p, s.runs r = some ⟨g, p⟩ ∧ c ∈ p.slice

def Pending (s : State K) : Prop :=
  ∀ c, (s.calls c).queued = true → s.sent c = [] → InHand s c

/-- No request joins a group after a closed branch has read it. -/
def noLateAppend (s : State K) (a : Action) : Prop :=
  ∀ c g, a = .call c → s.calls c = .lockGroup g → (s.heap g).requests ≠ none → ¬ Answered s g

theorem pending_init (k : K) : Pending (init k) := by
  intro c queued
  simp [init, CallPoint.queued] at queued

theorem Pending.setCall (pending : Pending s) (c : CallId) (p : CallPoint)
    (same : p.queued = true → s.sent c = [] → (s.calls c).queued = true ∨ InHand s c) :
    Pending (s.setCall c p) := by
  intro d queued unsent
  by_cases eq : d = c
  · subst d
    rcases same (by simpa [State.setCall] using queued) unsent with queued | inHand
    · exact pending c queued unsent
    · exact inHand
  · exact pending d (by simpa [State.setCall, eq] using queued) unsent

theorem InHand.setGroup {c : CallId} (inHand : InHand s c) (g : GroupId) (b : BatchGroup K)
    (kept : c ∈ (s.heap g).held → c ∈ b.held) : InHand (s.setGroup g b) c := by
  rcases inHand with ⟨h, held, unanswered⟩ | running
  · refine .inl ⟨h, ?_, unanswered⟩
    by_cases eq : h = g
    · subst h
      simpa [State.setGroup] using kept held
    · simpa [State.setGroup, eq] using held
  · exact .inr running

theorem not_answered_setRun {r : RunId} {g h : GroupId} {p : RunPoint}
    (unanswered : ¬ Answered s h) (new : p.closedBranch = true → h ≠ g ∨ Answered s g) :
    ¬ Answered (s.setRun r g p) h := by
  intro answered
  obtain ⟨r', q, running, closed⟩ := answered
  by_cases eq : r' = r
  · subst r'
    obtain ⟨rfl, rfl⟩ : g = h ∧ p = q := by simpa [State.setRun] using running
    exact unanswered ((new closed).resolve_left (by simp))
  · exact unanswered ⟨r', q, by simpa [State.setRun, eq] using running, closed⟩

theorem InHand.setRun {c : CallId} (inHand : InHand s c) (r : RunId) (g : GroupId) (p : RunPoint)
    (kept : ∀ h q, s.runs r = some ⟨h, q⟩ → c ∈ q.slice → c ∈ p.slice)
    (old : p.closedBranch = true → Answered s g) : InHand (s.setRun r g p) c := by
  rcases inHand with ⟨h, held, unanswered⟩ | ⟨r', h, q, running, mem⟩
  · exact .inl ⟨h, held, not_answered_setRun unanswered fun closed => .inr (old closed)⟩
  · by_cases eq : r' = r
    · subst r'
      exact .inr ⟨r, g, p, by simp [State.setRun], kept h q running mem⟩
    · exact .inr ⟨r', h, q, by simpa [State.setRun, eq] using running, mem⟩

theorem InHand.moveRun {c : CallId} (inHand : InHand s c) {r : RunId} {g : GroupId} {q : RunPoint}
    (running : s.runs r = some ⟨g, q⟩) (p : RunPoint) (kept : c ∈ q.slice → c ∈ p.slice)
    (old : p.closedBranch = true → q.closedBranch = true) : InHand (s.setRun r g p) c := by
  refine inHand.setRun r g p ?_ fun closed => ⟨r, q, running, old closed⟩
  intro h q' running' mem
  obtain ⟨rfl, rfl⟩ : g = h ∧ q = q' := by simpa [running] using running'
  exact kept mem

theorem Pending.append (pending : Pending s) {c : CallId} {g : GroupId} {b : BatchGroup K}
    {p : CallPoint} (held : b.held = (s.heap g).held ++ [c]) (unanswered : ¬ Answered s g) :
    Pending ((s.setGroup g b).setCall c p) := by
  have grown : Pending (s.setGroup g b) := fun d queued unsent =>
    (pending d queued unsent).setGroup g b fun mem => by simp [held, mem]
  refine grown.setCall c p fun _ _ => .inr (.inl ⟨g, ?_, unanswered⟩)
  simp [State.setGroup, held]

theorem InHand.read {c : CallId} {r : RunId} {g : GroupId} {q p : RunPoint} {b : BatchGroup K}
    (inHand : InHand s c) (running : s.runs r = some ⟨g, q⟩) (fresh : q.slice = [])
    (slice : p.slice = (s.heap g).held) : InHand ((s.setGroup g b).setRun r g p) c := by
  rcases inHand with ⟨h, held, unanswered⟩ | ⟨r', h, q', running', mem⟩
  · by_cases eq : h = g
    · subst h
      exact .inr ⟨r, g, p, by simp [State.setRun], by simpa [slice] using held⟩
    · refine .inl ⟨h, by simpa [State.setRun, State.setGroup, eq] using held, ?_⟩
      exact not_answered_setRun (s := s.setGroup g b) unanswered fun _ => .inl eq
  · have ne : r' ≠ r := by
      rintro rfl
      obtain ⟨rfl, rfl⟩ : g = h ∧ q = q' := by simpa [running] using running'
      simp [fresh] at mem
    exact .inr ⟨r', h, q', by simpa [State.setRun, State.setGroup, ne] using running', mem⟩

theorem Pending.send (pending : Pending s) {r : RunId} {g : GroupId} {q p : RunPoint}
    {c : CallId} (result : WriteResult) (running : s.runs r = some ⟨g, q⟩)
    (slice : q.slice = c :: p.slice) (same : p.closedBranch = q.closedBranch) :
    Pending ((s.send c result).setRun r g p) := by
  intro d queued unsent
  have ne : d ≠ c := by
    rintro rfl
    simp [State.setRun, State.send] at unsent
  have before : InHand s d :=
    pending d queued (by simpa [State.setRun, State.send, ne] using unsent)
  exact InHand.moveRun (s := s.send c result) before running p (by simp [slice, ne])
    (by simp [same])

theorem pending_step [DecidableEq K] (shape : Shape s) (pending : Pending s)
    (early : noLateAppend s a) (tr : Transition maxBatchSize key s a t) : Pending t := by
  cases tr with
  | invoke c point | reject c point | proceed c point | missed c point | retry c g point
  | found c g point => exact pending.setCall c _ (by simp [CallPoint.queued])
  | cancel c point => exact pending.setCall c _ (by simp [point, CallPoint.queued])
  | receive c result point =>
    have drained : Pending { s with channel := Function.update s.channel c none } := pending
    exact drained.setCall c _ (by simp [point, CallPoint.queued])
  | created c point =>
    have created : Pending (({ s with fresh := s.fresh + 1 }.setGroup s.fresh
        (newGroup (key c))).setKey (key c) (some s.fresh)) := fun d queued unsent =>
      InHand.setGroup (s := { s with fresh := s.fresh + 1 }) (pending d queued unsent) s.fresh
        (newGroup (key c))
          (by simp [BatchGroup.held, shape.unused s.fresh (Nat.le_refl _), newGroup])
    exact created.setCall c _ (by simp [CallPoint.queued])
  | first c g point held =>
    exact pending.append (by simp [BatchGroup.held, held]) (early c g rfl point (by simp [held]))
  | fill c g requests point held | join c g requests point held =>
    exact pending.append (by simp [BatchGroup.held, held]) (early c g rfl point (by simp [held]))
  | delete c g point =>
    have unlocked : Pending ((s.setKey (key c) none).setGroup g
        { s.heap g with locked := false }) := fun d queued unsent =>
      InHand.setGroup (s := s.setKey (key c) none) (pending d queued unsent) g _ id
    exact unlocked.setCall c _ (by simp [point, CallPoint.queued, State.setGroup, State.setKey])
  | stop c g point =>
    have stopped : Pending (s.setGroup g { s.heap g with
        timer := if (s.heap g).timer = .armed then .stopped else (s.heap g).timer }) :=
      fun d queued unsent => (pending d queued unsent).setGroup g _ id
    exact stopped.setCall c _ (by simp [point, CallPoint.queued, State.setGroup])
  | spawn c g point =>
    have idle := shape.noFull (c := c) (by simp [point, CallPoint.settled])
    have spawned : Pending (s.setRun (.full c) g .loadClosed) := fun d queued unsent =>
      (pending d queued unsent).setRun _ g _ (by simp [idle]) (by simp [RunPoint.closedBranch])
    exact spawned.setCall c _ (by simp [point, CallPoint.queued, State.setRun])
  | fire g armed =>
    have idle := shape.noTimer (g := g) (by simp [armed])
    intro d queued unsent
    exact ((pending d queued unsent).setGroup g { s.heap g with timer := .fired } id).setRun _ g _
      (by simp [State.setGroup, idle]) (by simp [RunPoint.closedBranch])
  | enter r g running =>
    intro d queued unsent
    refine (pending d queued unsent).moveRun running _ (by simp [RunPoint.slice]) ?_
    cases s.closed <;> simp [RunPoint.closedBranch]
  | readClosed r g running =>
    intro d queued unsent
    have read := (pending d queued unsent).read (p := .answer ((s.heap g).requests.getD []))
      (b := s.heap g) running rfl rfl
    simpa [State.setGroup] using read
  | answered r g running =>
    intro d queued unsent
    exact (pending d queued unsent).moveRun running _ (by simp [RunPoint.slice])
      (by simp [RunPoint.closedBranch])
  | answer r g c rest running =>
    exact pending.send (.failed .managerClosed) running rfl rfl
  | take r g running =>
    intro d queued unsent
    exact InHand.read (s := { s with
      taken := Function.update s.taken r ((s.heap g).requests.getD []) })
      (pending d queued unsent) running rfl rfl
  | compareAndDelete r g requests running =>
    have kept : ∀ c ∈ requests,
        c ∈ (if requests = [] then RunPoint.done else .execute requests).slice := by
      intro c mem
      rw [if_neg (List.ne_nil_of_mem mem)]
      exact mem
    have opened : (if requests = [] then RunPoint.done else .execute requests).closedBranch =
        false := by split <;> rfl
    split
    · intro d queued unsent
      exact InHand.moveRun (s := s.setKey (s.heap g).batchKey none) (pending d queued unsent)
        running _ (kept d) (by simp [opened])
    · intro d queued unsent
      exact (pending d queued unsent).moveRun running _ (kept d) (by simp [opened])
  | delivered r g running =>
    intro d queued unsent
    exact (pending d queued unsent).moveRun running _ (by simp [RunPoint.slice])
      (by simp [RunPoint.closedBranch])
  | deliver r g c result rest running => exact pending.send result running rfl rfl
  | execute r g requests results running fits =>
    intro d queued unsent
    refine InHand.moveRun (s := { s with executed := s.executed ++ requests })
      (pending d queued unsent) running _ ?_ (by simp [RunPoint.closedBranch])
    intro mem
    rw [RunPoint.slice, List.map_fst_zip (Nat.le_of_eq fits.symm)]
    exact mem
  | close => exact pending

/-- Every queued request without a result is in a group with a trigger left or
in the hands of a run. -/
def NotStranded (s : State K) : Prop :=
  ∀ c, (s.calls c).queued = true → s.sent c = [] →
    (∃ g, c ∈ (s.heap g).held ∧ Triggered s g) ∨ ∃ r g p, s.runs r = some ⟨g, p⟩ ∧ c ∈ p.slice

theorem Pending.notStranded (pending : Pending s) (attention : Attention s) : NotStranded s := by
  intro c queued unsent
  rcases pending c queued unsent with ⟨g, held, unanswered⟩ | running
  · have trigger := (attention g (List.ne_nil_of_mem held)).resolve_right unanswered
    exact .inl ⟨g, held, trigger⟩
  · exact .inr running

/-- While the manager is open a request is taken and executed once at most, and
no request waits in a group without a trigger. -/
structure ExactlyOnce (s : State K) : Prop where
  oneSlice : ∀ r r' c, c ∈ s.taken r → c ∈ s.taken r' → r = r'
  takenNodup : ∀ r, (s.taken r).Nodup
  triggered : ∀ g, ∀ c ∈ (s.heap g).held, Triggered s g
  executedNodup : s.executed.Nodup
  notStranded : NotStranded s

def neverClose (_ : State K) (a : Action) : Prop := a ≠ .close

def Opened (s : State K) : Prop :=
  s.closed = false ∧
    ∀ r g p, s.runs r = some ⟨g, p⟩ → p ≠ .readClosed ∧ p.closedBranch = false

theorem opened_init (k : K) : Opened (init k) := ⟨rfl, by simp [init]⟩

theorem Opened.setRun (opened : Opened s) (r : RunId) (g : GroupId) (p : RunPoint)
    (good : p ≠ .readClosed ∧ p.closedBranch = false) : Opened (s.setRun r g p) := by
  refine ⟨opened.1, fun r' h q running => ?_⟩
  by_cases eq : r' = r
  · subst r'
    obtain ⟨-, rfl⟩ : g = h ∧ p = q := by simpa [State.setRun] using running
    exact good
  · exact opened.2 r' h q (by simpa [State.setRun, eq] using running)

theorem Opened.not_answered (opened : Opened s) (g : GroupId) : ¬ Answered s g := by
  intro answered
  obtain ⟨r, p, running, closed⟩ := answered
  simp [(opened.2 r g p running).2] at closed

theorem opened_step [DecidableEq K] (opened : Opened s) (never : neverClose s a)
    (tr : Transition maxBatchSize key s a t) : Opened t := by
  cases tr with
  | spawn c g point =>
    exact opened.setRun (.full c) g .loadClosed ⟨by simp, rfl⟩
  | fire g armed =>
    have fired : Opened (s.setGroup g { s.heap g with timer := .fired }) := opened
    exact fired.setRun (.timer g) g .loadClosed ⟨by simp, rfl⟩
  | enter r g running => exact opened.setRun r g _ (by simp [opened.1, RunPoint.closedBranch])
  | readClosed r g running => exact absurd rfl (opened.2 r g _ running).1
  | answered r g running | answer r g _ _ running =>
    exact absurd (opened.2 r g _ running).2 (by simp [RunPoint.closedBranch])
  | take r g running =>
    exact Opened.setRun (s := { s with
      taken := Function.update s.taken r ((s.heap g).requests.getD []) }.setGroup g
        { s.heap g with requests := none }) opened r g (.compareAndDelete _) ⟨by simp, rfl⟩
  | compareAndDelete r g requests running =>
    have next : (if requests = [] then RunPoint.done else .execute requests) ≠ .readClosed ∧
        (if requests = [] then RunPoint.done else .execute requests).closedBranch = false := by
      split <;> exact ⟨by simp, rfl⟩
    split
    · exact Opened.setRun (s := s.setKey (s.heap g).batchKey none) opened r g _ next
    · exact opened.setRun r g _ next
  | delivered r g running => exact opened.setRun r g _ ⟨by simp, rfl⟩
  | deliver r g c result rest running =>
    exact Opened.setRun (s := s.send c result) opened r g _ ⟨by simp, rfl⟩
  | execute r g requests results running =>
    exact Opened.setRun (s := { s with executed := s.executed ++ requests }) opened r g _
      ⟨by simp, rfl⟩
  | close => exact absurd rfl never
  | _ => exact opened

section
variable [DecidableEq K] {k : K}

theorem reach_attention {guard : State K → Action → Prop}
    (reach : Reach (step maxBatchSize key) guard (init k) s) : Attention s := by
  induction reach with
  | start => exact attention_init k
  | next before _ taken ih => exact attention_step (reach_shape before) ih (step_transition taken)

theorem reach_pending (reach : Reach (step maxBatchSize key) noLateAppend (init k) s) :
    Pending s := by
  induction reach with
  | start => exact pending_init k
  | next before early taken ih =>
    exact pending_step (reach_shape before) ih early (step_transition taken)

theorem reach_open {guard : State K → Action → Prop}
    (reach : Reach (step maxBatchSize key) neverClose (init k) s)
    (weaker : ∀ s a, Opened s → guard s a) : Reach (step maxBatchSize key) guard (init k) s :=
  reach.weaken (opened_init k)
    (fun _ _ _ opened never taken => opened_step opened never (step_transition taken))
    (fun s a opened _ => weaker s a opened)

theorem reach_opened (reach : Reach (step maxBatchSize key) neverClose (init k) s) : Opened s :=
  reach.invariant (opened_init k)
    fun _ _ _ opened never taken => opened_step opened never (step_transition taken)

theorem close_not_stranded (reach : Reach (step maxBatchSize key) noLateAppend (init k) s) :
    NotStranded s :=
  (reach_pending reach).notStranded (reach_attention reach)

theorem open_exactly_once (reach : Reach (step maxBatchSize key) neverClose (init k) s) :
    ExactlyOnce s := by
  have opened := reach_opened reach
  have attention := reach_attention reach
  obtain ⟨place, located⟩ := reach_located reach
  obtain ⟨reader, custody⟩ := reach_custody
    (reach_open reach fun _ _ opened _ g _ _ _ _ _ => opened.not_answered g)
  have pending := reach_pending (reach_open reach fun _ _ opened _ g _ _ _ => opened.not_answered g)
  refine ⟨fun r r' c mem mem' => ?_, located.takenNodup, fun g c held => ?_,
    custody.executedNodup, pending.notStranded attention⟩
  · have eq : Place.taken r = .taken r' :=
      (located.taken r c mem).symm.trans (located.taken r' c mem')
    simpa using eq
  · exact (attention g (List.ne_nil_of_mem held)).resolve_right (opened.not_answered g)

end

def fullBatch : List Action :=
  [.invoke 0, .call 0, .call 0, .call 0, .call 0, .invoke 1, .call 1, .call 1, .call 1, .call 1,
   .call 1, .call 1, .run (.full 1), .run (.full 1), .run (.full 1),
   .execute (.full 1) [{}, {}], .run (.full 1), .run (.full 1)]

theorem open_exactly_once_full :
    ∃ s, Reach (step 2 fun _ => lit "k") neverClose (init (lit "k")) s ∧
      s.executed = [0, 1] ∧ ExactlyOnce s := by
  obtain ⟨s, reach, -, test⟩ : ∃ s, Reach (step 2 fun _ => lit "k") neverClose (init (lit "k")) s ∧
      True ∧ decide (s.executed = [0, 1]) = true :=
    reach_of_test (fun _ a => decide (a ≠ .close)) fullBatch trivial (fun _ _ _ _ _ _ => trivial)
      (fun _ _ _ => of_decide_eq_true) (fun s : State GoString => decide (s.executed = [0, 1]))
      (by decide)
  exact ⟨s, reach, of_decide_eq_true test, open_exactly_once reach⟩

/-- Call 1 has found the group when Close happens; the timer's run answers the
group before call 1 appends to it. -/
def lateAppend : List Action :=
  [.invoke 0, .call 0, .call 0, .call 0, .call 0, .invoke 1, .call 1, .call 1, .close, .fire 0,
   .run (.timer 0), .run (.timer 0), .run (.timer 0), .run (.timer 0), .call 1]

/-- Request `c` sits in group `g`, nothing of `g` is pending and no run holds `c`. -/
def strandedIn (as : List Action) (c : CallId) (g : GroupId) (s : State K) : Bool :=
  (s.calls c).queued && (s.sent c).isEmpty && decide (c ∈ (s.heap g).held) &&
    decide ((s.heap g).timer ≠ .armed) &&
    (as.all fun a => match a with
      | .invoke d => decide ((s.calls d).spawning ≠ some g)
      | _ => true) &&
    ((started as).all fun r => (s.runs r).all fun run =>
      !run.point.willRead && decide (c ∉ run.point.slice))

theorem not_notStranded_of_strandedIn {as : List Action} {c : CallId} {g : GroupId}
    {place : CallId → Place} (located : Located place s)
    (runs : ∀ r, r ∉ started as → s.runs r = none)
    (calls : ∀ c, .invoke c ∉ as → s.calls c = .absent) (stuck : strandedIn as c g s = true) :
    ¬ NotStranded s := by
  simp only [strandedIn, Bool.and_eq_true, decide_eq_true_eq, List.isEmpty_iff,
    List.all_eq_true] at stuck
  obtain ⟨⟨⟨⟨⟨queued, unsent⟩, held⟩, timer⟩, spawning⟩, running⟩ := stuck
  have idle {r : RunId} {h : GroupId} {p : RunPoint} (point : s.runs r = some ⟨h, p⟩) :
      p.willRead = false ∧ c ∉ p.slice := by
    have mem : r ∈ started as := by
      by_contra out
      simp [runs r out] at point
    simpa [point] using running r mem
  intro safe
  rcases safe c queued unsent with ⟨h, held', trigger⟩ | ⟨r, h, p, point, mem⟩
  · obtain rfl : g = h := by simpa [located.held g c held] using located.held h c held'
    rcases trigger with armed | ⟨d, spawns⟩ | ⟨r, p, point, reads⟩
    · exact timer armed
    · have mem : Action.invoke d ∈ as := by
        by_contra out
        simp [calls d out, CallPoint.spawning] at spawns
      exact absurd spawns (by simpa using spawning _ mem)
    · simp [(idle point).1] at reads
  · exact (idle point).2 mem

theorem close_strands :
    ∃ s, Reach (step 3 fun _ => lit "k") free (init (lit "k")) s ∧ ¬ NotStranded s := by
  obtain ⟨s, reach, ⟨runs, calls⟩, stuck⟩ : ∃ s,
      Reach (step 3 fun _ => lit "k") free (init (lit "k")) s ∧
      ((∀ r, r ∉ started lateAppend → s.runs r = none) ∧
        ∀ c, .invoke c ∉ lateAppend → s.calls c = .absent) ∧
      strandedIn lateAppend 1 0 s = true :=
    reach_of_test (fun _ _ => true) lateAppend ⟨fun _ _ => rfl, fun _ _ => rfl⟩
      (fun _ _ _ mem known taken =>
        ⟨runs_started mem known.1 taken, calls_invoked mem known.2 taken⟩)
      (fun _ _ _ _ => trivial) (strandedIn lateAppend 1 0) (by decide)
  obtain ⟨place, located⟩ := reach_located reach
  exact ⟨s, reach, not_notStranded_of_strandedIn located runs calls stuck⟩

def noLateAppendIn (known : List RunId) (s : State K) : Action → Bool
  | .call c =>
    match s.calls c with
    | .lockGroup g => (s.heap g).requests.isNone || !answeredIn known s g
    | _ => true
  | _ => true

theorem noLateAppend_of_noLateAppendIn {known : List RunId}
    (all : ∀ r, r ∉ known → s.runs r = none) (passed : noLateAppendIn known s a = true) :
    noLateAppend s a := by
  intro c g act point present answered
  subst act
  have found := answeredIn_of_answered all answered
  simp [noLateAppendIn, point, found, present] at passed

def timedClose : List Action :=
  [.invoke 0, .call 0, .call 0, .call 0, .call 0, .close, .fire 0, .run (.timer 0)]

theorem close_not_stranded_timed :
    ∃ s, Reach (step 3 fun _ => lit "k") noLateAppend (init (lit "k")) s ∧
      (s.closed && (s.calls 0).queued && (s.sent 0).isEmpty) = true ∧ NotStranded s := by
  obtain ⟨s, reach, -, test⟩ : ∃ s,
      Reach (step 3 fun _ => lit "k") noLateAppend (init (lit "k")) s ∧
      (∀ r, r ∉ started timedClose → s.runs r = none) ∧
      (s.closed && (s.calls 0).queued && (s.sent 0).isEmpty) = true :=
    reach_of_test (noLateAppendIn (started timedClose)) timedClose (fun _ _ => rfl)
      (fun _ _ _ mem known taken => runs_started mem known taken)
      (fun _ _ => noLateAppend_of_noLateAppendIn)
      (fun s => s.closed && (s.calls 0).queued && (s.sent 0).isEmpty) (by decide)
  exact ⟨s, reach, test, close_not_stranded reach⟩

end TQDBProxy.WriteBatchManager
