import TQDBProxy.WriteBatchShape

/-! Exclusive custody of a request under Close. The closed branch of executeBatch answers the
requests of its group but leaves them there, so a second run of the same group reads them
again. The guard `soleReader` excludes exactly that. -/

namespace TQDBProxy.WriteBatchManager

open GuardedRuns

variable {K : Type} {maxBatchSize : Nat} {key : CallId → K} {s t : State K} {a : Action}
  {place : CallId → Place}

def RunPoint.closedBranch : RunPoint → Bool
  | .answer _ | .answered => true
  | _ => false

def RunPoint.executedBranch : RunPoint → Bool
  | .deliver _ | .done => true
  | _ => false

/-- The results a run has still to send are the database's. -/
def RunPoint.honest : RunPoint → Prop
  | .deliver results => ∀ x ∈ results, x.2.error ≠ some .managerClosed
  | _ => True

def Answered (s : State K) (g : GroupId) : Prop :=
  ∃ r p, s.runs r = some ⟨g, p⟩ ∧ p.closedBranch = true

/-- No run enters the critical section of a group that still has its requests
after the closed branch of another run has answered them. -/
def soleReader (s : State K) (a : Action) : Prop :=
  ∀ r g p, a = .run r → s.runs r = some ⟨g, p⟩ → p = .readClosed ∨ p = .take →
    (s.heap g).requests ≠ none → ¬ Answered s g

/-- `reader c` is the one run that read request `c`. -/
structure Custody (reader : CallId → Option RunId) (s : State K) : Prop where
  slice : ∀ r g p, s.runs r = some ⟨g, p⟩ → ∀ c ∈ p.slice, reader c = some r ∧ s.sent c = []
  sliceNodup : ∀ r g p, s.runs r = some ⟨g, p⟩ → p.slice.Nodup
  honest : ∀ r g p, s.runs r = some ⟨g, p⟩ → p.honest
  unread : ∀ c, reader c = none → s.sent c = []
  outside : ∀ c, (s.calls c).queued = false → reader c = none
  once : ∀ c, (s.sent c).length ≤ 1
  held : ∀ g, ∀ c ∈ (s.heap g).held, ∀ r, reader c = some r →
    ∃ p, s.runs r = some ⟨g, p⟩ ∧ p.closedBranch = true
  closed : ∀ c, ∀ result ∈ s.sent c, result.error = some .managerClosed →
    ∃ r g p, reader c = some r ∧ s.runs r = some ⟨g, p⟩ ∧ p.closedBranch = true
  executed : ∀ c ∈ s.executed,
    ∃ r g p, reader c = some r ∧ s.runs r = some ⟨g, p⟩ ∧ p.executedBranch = true
  executedNodup : s.executed.Nodup
  channel : ∀ c result, s.channel c = some result → result ∈ s.sent c
  returned : ∀ c result, s.calls c = .returned result →
    result = .failed .canceled ∨ result ∈ s.sent c

variable {reader : CallId → Option RunId}

theorem custody_init (k : K) : Custody (fun _ => none) (init k) := by
  constructor <;> simp [init, newGroup, BatchGroup.held]

theorem Custody.setCall (custody : Custody reader s) (c : CallId) (p : CallPoint)
    (same : p.queued = false → (s.calls c).queued = false)
    (returned : ∀ result, p = .returned result →
      result = .failed .canceled ∨ result ∈ s.sent c) : Custody reader (s.setCall c p) :=
  { custody with
    outside := by
      intro d out
      by_cases eq : d = c
      · subst d
        exact custody.outside c (same (by simpa [State.setCall] using out))
      · exact custody.outside d (by simpa [State.setCall, eq] using out)
    returned := by
      intro d result point
      by_cases eq : d = c
      · subst d
        exact returned result (by simpa [State.setCall] using point)
      · exact custody.returned d result (by simpa [State.setCall, eq] using point) }

theorem Custody.setGroup (custody : Custody reader s) (g : GroupId) (b : BatchGroup K)
    (same : ∀ c ∈ b.held, c ∈ (s.heap g).held ∨ reader c = none) :
    Custody reader (s.setGroup g b) :=
  { custody with
    held := by
      intro h c mem r read
      by_cases eq : h = g
      · subst h
        rcases same c (by simpa [State.setGroup] using mem) with old | unread
        · exact custody.held g c old r read
        · simp [unread] at read
      · exact custody.held h c (by simpa [State.setGroup, eq] using mem) r read }

theorem Custody.moveRun (custody : Custody reader s) {r : RunId} {g : GroupId} {q p : RunPoint}
    (running : s.runs r = some ⟨g, q⟩) (sublist : p.slice.Sublist q.slice)
    (closed : q.closedBranch = true → p.closedBranch = true)
    (executed : q.executedBranch = true → p.executedBranch = true)
    (honest : p.honest) : Custody reader (s.setRun r g p) := by
  have follow (f : RunPoint → Bool) (kept : f q = true → f p = true) {r' : RunId} {h : GroupId}
      {o : RunPoint} (at_o : s.runs r' = some ⟨h, o⟩) (holds : f o = true) :
      ∃ o', (s.setRun r g p).runs r' = some ⟨h, o'⟩ ∧ f o' = true := by
    by_cases eq : r' = r
    · subst r'
      obtain ⟨rfl, rfl⟩ : g = h ∧ q = o := by simpa [running] using at_o
      exact ⟨p, by simp [State.setRun], kept holds⟩
    · exact ⟨o, by simpa [State.setRun, eq] using at_o, holds⟩
  have back {r' : RunId} {h : GroupId} {o : RunPoint}
      (at_o : (s.setRun r g p).runs r' = some ⟨h, o⟩) :
      (r' = r ∧ o = p) ∨ s.runs r' = some ⟨h, o⟩ := by
    by_cases eq : r' = r
    · subst r'
      obtain ⟨_, rfl⟩ : g = h ∧ p = o := by simpa [State.setRun] using at_o
      exact .inl ⟨rfl, rfl⟩
    · exact .inr (by simpa [State.setRun, eq] using at_o)
  exact
    { custody with
      slice := by
        intro r' h o at_o c mem
        rcases back at_o with ⟨rfl, rfl⟩ | old
        · exact custody.slice r' g q running c (sublist.subset mem)
        · exact custody.slice r' h o old c mem
      sliceNodup := by
        intro r' h o at_o
        rcases back at_o with ⟨rfl, rfl⟩ | old
        · exact (custody.sliceNodup r' g q running).sublist sublist
        · exact custody.sliceNodup r' h o old
      honest := by
        intro r' h o at_o
        rcases back at_o with ⟨rfl, rfl⟩ | old
        · exact honest
        · exact custody.honest r' h o old
      held := by
        intro h c mem r' read
        obtain ⟨o, at_o, inBranch⟩ := custody.held h c mem r' read
        exact follow _ closed at_o inBranch
      closed := by
        intro c result mem error
        obtain ⟨r', h, o, read, at_o, inBranch⟩ := custody.closed c result mem error
        obtain ⟨o', at_o', inBranch'⟩ := follow _ closed at_o inBranch
        exact ⟨r', h, o', read, at_o', inBranch'⟩
      executed := by
        intro c mem
        obtain ⟨r', h, o, read, at_o, inBranch⟩ := custody.executed c mem
        obtain ⟨o', at_o', inBranch'⟩ := follow _ executed at_o inBranch
        exact ⟨r', h, o', read, at_o', inBranch'⟩ }

theorem Custody.startRun (custody : Custody reader s) {r : RunId} (idle : s.runs r = none)
    (g : GroupId) : Custody reader (s.setRun r g .loadClosed) := by
  have keep {r' : RunId} {h : GroupId} {o : RunPoint} (at_o : s.runs r' = some ⟨h, o⟩) :
      (s.setRun r g .loadClosed).runs r' = some ⟨h, o⟩ := by
    have other : r' ≠ r := by
      rintro rfl
      simp [idle] at at_o
    simpa [State.setRun, other] using at_o
  have back {r' : RunId} {h : GroupId} {o : RunPoint}
      (at_o : (s.setRun r g .loadClosed).runs r' = some ⟨h, o⟩) :
      o = .loadClosed ∨ s.runs r' = some ⟨h, o⟩ := by
    by_cases eq : r' = r
    · obtain ⟨_, rfl⟩ : g = h ∧ RunPoint.loadClosed = o := by
        simpa [State.setRun, eq] using at_o
      exact .inl rfl
    · exact .inr (by simpa [State.setRun, eq] using at_o)
  exact
    { custody with
      slice := by
        intro r' h o at_o c mem
        rcases back at_o with rfl | old
        · simp [RunPoint.slice] at mem
        · exact custody.slice r' h o old c mem
      sliceNodup := by
        intro r' h o at_o
        rcases back at_o with rfl | old
        · exact List.nodup_nil
        · exact custody.sliceNodup r' h o old
      honest := by
        intro r' h o at_o
        rcases back at_o with rfl | old
        · trivial
        · exact custody.honest r' h o old
      held := by
        intro h c mem r' read
        obtain ⟨o, at_o, inBranch⟩ := custody.held h c mem r' read
        exact ⟨o, keep at_o, inBranch⟩
      closed := by
        intro c result mem error
        obtain ⟨r', h, o, read, at_o, inBranch⟩ := custody.closed c result mem error
        exact ⟨r', h, o, read, keep at_o, inBranch⟩
      executed := by
        intro c mem
        obtain ⟨r', h, o, read, at_o, inBranch⟩ := custody.executed c mem
        exact ⟨r', h, o, read, keep at_o, inBranch⟩ }

theorem Custody.send (custody : Custody reader s) {r : RunId} {g : GroupId} {q p : RunPoint}
    {c : CallId} (running : s.runs r = some ⟨g, q⟩) (head : q.slice = c :: p.slice)
    (closed : q.closedBranch = p.closedBranch) (executed : q.executedBranch = p.executedBranch)
    (honest : p.honest) (result : WriteResult)
    (error : result.error = some .managerClosed → p.closedBranch = true) :
    Custody reader ((s.send c result).setRun r g p) := by
  have nodup := custody.sliceNodup r g q running
  rw [head, List.nodup_cons] at nodup
  have moved := custody.moveRun running (p := p) (by simp [head]) (by simp [closed])
    (by simp [executed]) honest
  obtain ⟨read, unsent⟩ := custody.slice r g q running c (by simp [head])
  have others {d : CallId} (ne : d ≠ c) : ((s.send c result).setRun r g p).sent d = s.sent d := by
    simp [State.send, State.setRun, ne]
  have now : ((s.send c result).setRun r g p).sent c = [result] := by
    simp [State.send, State.setRun, unsent]
  -- no other slice holds `c`: its one reader is `r`, which has just dropped it
  have gone : ∀ r' h o, (s.setRun r g p).runs r' = some ⟨h, o⟩ → c ∉ o.slice := by
    intro r' h o at_o mem
    have same := (moved.slice r' h o at_o c mem).1
    obtain rfl : r = r' := by simpa [read] using same
    obtain ⟨_, rfl⟩ : g = h ∧ p = o := by simpa [State.setRun] using at_o
    exact nodup.1 mem
  exact
    { moved with
      slice := by
        intro r' h o at_o d mem
        have ne : d ≠ c := by
          rintro rfl
          exact gone r' h o at_o mem
        rw [others ne]
        exact moved.slice r' h o at_o d mem
      unread := by
        intro d unread
        have ne : d ≠ c := by
          rintro rfl
          simp [read] at unread
        rw [others ne]
        exact custody.unread d unread
      once := by
        intro d
        by_cases eq : d = c
        · simp [eq, now]
        · rw [others eq]
          exact custody.once d
      closed := by
        intro d result' mem closedError
        by_cases eq : d = c
        · subst d
          rw [now, List.mem_singleton] at mem
          subst mem
          exact ⟨r, g, p, read, by simp [State.setRun, State.send], error closedError⟩
        · rw [others eq] at mem
          exact moved.closed d result' mem closedError
      channel := by
        intro d result' full
        by_cases eq : d = c
        · subst d
          have same : result = result' := by simpa [State.send, State.setRun] using full
          rw [now, same]
          exact List.mem_singleton_self _
        · rw [others eq]
          exact custody.channel d result' (by simpa [State.send, State.setRun, eq] using full)
      returned := by
        intro d result' point
        rcases custody.returned d result' point with canceled | mem
        · exact .inl canceled
        · by_cases eq : d = c
          · subst d
            simp [unsent] at mem
          · rw [others eq]
            exact .inr mem }

theorem Custody.acquire (custody : Custody reader s) (located : Located place s) {r : RunId}
    {g : GroupId} {q p : RunPoint} {b : BatchGroup K} (running : s.runs r = some ⟨g, q⟩)
    (notClosed : q.closedBranch = false) (notExecuted : q.executedBranch = false)
    (unread : ∀ c ∈ (s.heap g).held, reader c = none) (slice : p.slice = (s.heap g).held)
    (honest : p.honest)
    (group : b.held = [] ∨ b.held = (s.heap g).held ∧ p.closedBranch = true) :
    Custody (fun c => if c ∈ (s.heap g).held then some r else reader c)
      ((s.setGroup g b).setRun r g p) := by
  have keep {r' : RunId} {h : GroupId} {o : RunPoint} (at_o : s.runs r' = some ⟨h, o⟩)
      (branch : o.closedBranch = true ∨ o.executedBranch = true) :
      ((s.setGroup g b).setRun r g p).runs r' = some ⟨h, o⟩ := by
    have other : r' ≠ r := by
      rintro rfl
      obtain ⟨_, rfl⟩ : g = h ∧ q = o := by simpa [running] using at_o
      simp [notClosed, notExecuted] at branch
    simpa [State.setRun, State.setGroup, other] using at_o
  have back {r' : RunId} {h : GroupId} {o : RunPoint}
      (at_o : ((s.setGroup g b).setRun r g p).runs r' = some ⟨h, o⟩) :
      (r' = r ∧ o = p) ∨ s.runs r' = some ⟨h, o⟩ := by
    by_cases eq : r' = r
    · obtain ⟨_, rfl⟩ : g = h ∧ p = o := by simpa [State.setRun, eq] using at_o
      exact .inl ⟨eq, rfl⟩
    · exact .inr (by simpa [State.setRun, State.setGroup, eq] using at_o)
  have old {c : CallId} {r' : RunId} (read : reader c = some r') : c ∉ (s.heap g).held :=
    fun mem => by simp [unread c mem] at read
  constructor
  · intro r' h o at_o c mem
    rcases back at_o with ⟨rfl, rfl⟩ | at_o
    · rw [slice] at mem
      exact ⟨by simp [mem], custody.unread c (unread c mem)⟩
    · obtain ⟨read, unsent⟩ := custody.slice r' h o at_o c mem
      exact ⟨by simp [old read, read], unsent⟩
  · intro r' h o at_o
    rcases back at_o with ⟨rfl, rfl⟩ | at_o
    · rw [slice]
      exact located.heldNodup g
    · exact custody.sliceNodup r' h o at_o
  · intro r' h o at_o
    rcases back at_o with ⟨rfl, rfl⟩ | at_o
    · exact honest
    · exact custody.honest r' h o at_o
  · intro c unread'
    split_ifs at unread'
    exact custody.unread c unread'
  · intro c out
    have absent : c ∉ (s.heap g).held := fun mem => by
      have queued := located.queued mem
      rw [show (s.calls c).queued = false from out] at queued
      cases queued
    simpa [absent] using custody.outside c out
  · exact custody.once
  · intro h c mem r' read
    by_cases eq : h = g
    · subst h
      have mem : c ∈ b.held := by simpa [State.setGroup, State.setRun] using mem
      rcases group with none | ⟨same, closed⟩
      · simp [none] at mem
      · obtain rfl : r = r' := by simpa [same ▸ mem] using read
        exact ⟨p, by simp [State.setRun], closed⟩
    · have mem : c ∈ (s.heap h).held := by simpa [State.setGroup, State.setRun, eq] using mem
      rw [if_neg (located.elsewhere eq c mem)] at read
      obtain ⟨o, at_o, branch⟩ := custody.held h c mem r' read
      exact ⟨o, keep at_o (.inl branch), branch⟩
  · intro c result mem error
    obtain ⟨r', h, o, read, at_o, branch⟩ := custody.closed c result mem error
    exact ⟨r', h, o, by simp [old read, read], keep at_o (.inl branch), branch⟩
  · intro c mem
    obtain ⟨r', h, o, read, at_o, branch⟩ := custody.executed c mem
    exact ⟨r', h, o, by simp [old read, read], keep at_o (.inr branch), branch⟩
  · exact custody.executedNodup
  · exact custody.channel
  · exact custody.returned

theorem Custody.execute (custody : Custody reader s) {r : RunId} {g : GroupId}
    {requests : List CallId} {results : List WriteResult}
    (running : s.runs r = some ⟨g, .execute requests⟩)
    (length : results.length = requests.length)
    (honest : ∀ result ∈ results, result.error ≠ some .managerClosed) :
    Custody reader ({ s with executed := s.executed ++ requests }.setRun r g
      (.deliver (requests.zip results))) := by
  have names : (requests.zip results).map Prod.fst = requests :=
    List.map_fst_zip (Nat.le_of_eq length.symm)
  have moved := custody.moveRun running (p := .deliver (requests.zip results))
    (by simp [RunPoint.slice, names]) (by simp [RunPoint.closedBranch])
    (by simp [RunPoint.executedBranch]) (fun x mem => honest x.2 (List.of_mem_zip mem).2)
  have reading : ∀ c ∈ requests, reader c = some r := fun c mem =>
    (custody.slice r g _ running c mem).1
  exact
    { moved with
      executed := by
        intro c mem
        rcases List.mem_append.mp mem with before | now
        · exact moved.executed c before
        · exact ⟨r, g, .deliver (requests.zip results), reading c now, by simp [State.setRun], rfl⟩
      executedNodup := by
        refine List.nodup_append.mpr ⟨custody.executedNodup, custody.sliceNodup r g _ running, ?_⟩
        rintro c before d now rfl
        obtain ⟨r', h, o, read, at_o, branch⟩ := custody.executed c before
        obtain rfl : r = r' := by simpa [reading c now] using read
        obtain ⟨_, rfl⟩ : g = h ∧ RunPoint.execute requests = o := by simpa [running] using at_o
        cases branch }

theorem Custody.unread_of_soleReader (custody : Custody reader s) {r : RunId} {g : GroupId}
    {p : RunPoint} (sole : soleReader s (.run r)) (running : s.runs r = some ⟨g, p⟩)
    (entering : p = .readClosed ∨ p = .take) : ∀ c ∈ (s.heap g).held, reader c = none := by
  intro c mem
  by_contra read
  obtain ⟨r', read⟩ := Option.ne_none_iff_exists'.mp read
  obtain ⟨o, at_o, branch⟩ := custody.held g c mem r' read
  have present : (s.heap g).requests ≠ none := by
    intro none
    simp [BatchGroup.held, none] at mem
  exact sole r g p rfl running entering present ⟨r', o, at_o, branch⟩

theorem custody_step [DecidableEq K] (shape : Shape s) (located : Located place s)
    (custody : Custody reader s) (sole : soleReader s a)
    (tr : Transition maxBatchSize key s a t) : ∃ reader', Custody reader' t := by
  cases tr with
  | invoke c point | reject c point | proceed c point | missed c point | retry c g point =>
    exact ⟨reader, custody.setCall c _ (by simp [point, CallPoint.queued]) (by simp)⟩
  | found c g point =>
    refine ⟨reader, custody.setCall c _ (fun _ => ?_) (by simp)⟩
    rcases point with point | point <;> simp [point, CallPoint.queued]
  | created c point =>
    have same : Custody reader { s with fresh := s.fresh + 1 } := { custody with }
    have created := same.setGroup s.fresh (newGroup (key c)) (by simp [newGroup, BatchGroup.held])
    have stored : Custody reader (({ s with fresh := s.fresh + 1 }.setGroup s.fresh
      (newGroup (key c))).setKey (key c) (some s.fresh)) := { created with }
    exact ⟨reader, stored.setCall c _
      (by simp [point, CallPoint.queued, State.setKey, State.setGroup]) (by simp)⟩
  | first c g point empty =>
    have unread := custody.outside c (by simp [point, CallPoint.queued])
    have appended := custody.setGroup g { s.heap g with requests := some [c], timer := .armed }
      (by simp [BatchGroup.held, unread])
    exact ⟨reader, appended.setCall c _ (by simp [CallPoint.queued]) (by simp)⟩
  | fill c g requests point held =>
    have unread := custody.outside c (by simp [point, CallPoint.queued])
    have appended := custody.setGroup g
      { s.heap g with requests := some (requests ++ [c]), locked := true }
      (by simp +contextual [BatchGroup.held, held, or_imp, unread])
    exact ⟨reader, appended.setCall c _ (by simp [CallPoint.queued]) (by simp)⟩
  | join c g requests point held =>
    have unread := custody.outside c (by simp [point, CallPoint.queued])
    have appended := custody.setGroup g { s.heap g with requests := some (requests ++ [c]) }
      (by simp +contextual [BatchGroup.held, held, or_imp, unread])
    exact ⟨reader, appended.setCall c _ (by simp [CallPoint.queued]) (by simp)⟩
  | delete c g point =>
    have cleared : Custody reader (s.setKey (key c) none) := { custody with }
    have unlocked := cleared.setGroup g { s.heap g with locked := false } (fun c mem => .inl mem)
    exact ⟨reader, unlocked.setCall c _ (by simp [CallPoint.queued]) (by simp)⟩
  | stop c g point =>
    have stopped := custody.setGroup g { s.heap g with
      timer := if (s.heap g).timer = .armed then .stopped else (s.heap g).timer }
      (fun c mem => .inl mem)
    exact ⟨reader, stopped.setCall c _ (by simp [CallPoint.queued]) (by simp)⟩
  | spawn c g point =>
    have started := custody.startRun
      (shape.noFull (c := c) (by simp [point, CallPoint.settled])) g
    exact ⟨reader, started.setCall c _ (by simp [CallPoint.queued]) (by simp)⟩
  | receive c result point full =>
    have drained : Custody reader { s with channel := Function.update s.channel c none } :=
      { custody with
        channel := by
          intro d result' full
          by_cases eq : d = c
          · simp [eq] at full
          · exact custody.channel d result' (by simpa [eq] using full) }
    refine ⟨reader, drained.setCall c _ (by simp [CallPoint.queued]) ?_⟩
    rintro _ ⟨⟩
    exact .inr (custody.channel c result full)
  | cancel c point =>
    refine ⟨reader, custody.setCall c _ (by simp [CallPoint.queued]) ?_⟩
    rintro _ ⟨⟩
    exact .inl rfl
  | fire g armed =>
    have fired := custody.setGroup g { s.heap g with timer := .fired } (fun c mem => .inl mem)
    exact ⟨reader, fired.startRun (shape.noTimer (by simp [armed])) g⟩
  | enter r g running =>
    cases s.closed <;>
      exact ⟨reader, custody.moveRun running (by simp [RunPoint.slice])
        (by simp [RunPoint.closedBranch]) (by simp [RunPoint.executedBranch]) trivial⟩
  | readClosed r g running =>
    have read := custody.acquire located (b := s.heap g) (p := .answer (s.heap g).held) running
      rfl rfl (custody.unread_of_soleReader sole running (.inl rfl)) rfl trivial (.inr ⟨rfl, rfl⟩)
    have same : s.setGroup g (s.heap g) = s := by simp [State.setGroup]
    exact ⟨_, same ▸ read⟩
  | take r g running =>
    have read := custody.acquire located (b := { s.heap g with requests := none })
      (p := .compareAndDelete (s.heap g).held) running rfl rfl
      (custody.unread_of_soleReader sole running (.inr rfl)) rfl trivial (.inl rfl)
    exact ⟨_, { read with }⟩
  | answered r g running =>
    exact ⟨reader, custody.moveRun running (by simp [RunPoint.slice])
      (by simp [RunPoint.closedBranch]) (by simp [RunPoint.executedBranch]) trivial⟩
  | answer r g c rest running =>
    exact ⟨reader, custody.send (p := .answer rest) running rfl rfl rfl trivial _ (fun _ => rfl)⟩
  | compareAndDelete r g requests running =>
    have cleared : Custody reader (if s.groups (s.heap g).batchKey = some g then
        s.setKey (s.heap g).batchKey none else s) := by
      split
      · exact { custody with }
      · exact custody
    have running' : (if s.groups (s.heap g).batchKey = some g then
        s.setKey (s.heap g).batchKey none else s).runs r
          = some ⟨g, .compareAndDelete requests⟩ := by
      split <;> exact running
    refine ⟨reader, cleared.moveRun running' ?_ (by simp [RunPoint.closedBranch])
      (by simp [RunPoint.executedBranch]) ?_⟩
    · split <;> simp_all [RunPoint.slice]
    · split <;> trivial
  | delivered r g running =>
    exact ⟨reader, custody.moveRun running (by simp [RunPoint.slice])
      (by simp [RunPoint.closedBranch]) (by simp [RunPoint.executedBranch]) trivial⟩
  | deliver r g c result rest running =>
    have honest := custody.honest r g _ running
    refine ⟨reader, custody.send (p := .deliver rest) running rfl rfl rfl
      (fun x mem => honest x (List.mem_cons_of_mem _ mem)) result fun error => ?_⟩
    exact absurd error (honest (c, result) (List.mem_cons_self ..))
  | execute r g requests results running length honest =>
    exact ⟨reader, custody.execute running length honest⟩
  | close => exact ⟨reader, { custody with }⟩

def CallPoint.refused : CallPoint → Bool
  | .rejected => true
  | .returned result => result.error = some .managerClosed
  | _ => false

/-- Closing duplicates nothing in a state: a refused request was not executed,
and no channel was sent two results. -/
def NoDuplicate (s : State K) : Prop :=
  (∀ c, (s.calls c).refused = true → c ∉ s.executed) ∧ ∀ c, (s.sent c).length ≤ 1

theorem Custody.refused_not_executed (custody : Custody reader s)
    {c : CallId} (refused : (s.calls c).refused = true) : c ∉ s.executed := by
  intro mem
  obtain ⟨r, g, p, read, running, branch⟩ := custody.executed c mem
  cases point : s.calls c with
  | rejected =>
    have unread := custody.outside c (by simp [point, CallPoint.queued])
    simp [unread] at read
  | returned result =>
    have error : result.error = some .managerClosed := by
      simpa [point, CallPoint.refused] using refused
    rcases custody.returned c result point with rfl | sent
    · cases error
    · obtain ⟨r', h, o, read', running', branch'⟩ := custody.closed c result sent error
      obtain rfl : r = r' := by simpa [read] using read'
      obtain ⟨_, rfl⟩ : g = h ∧ p = o := by simpa [running] using running'
      cases p <;> simp_all [RunPoint.closedBranch, RunPoint.executedBranch]
  | _ => simp [point, CallPoint.refused] at refused

def answeredIn (known : List RunId) (s : State K) (g : GroupId) : Bool :=
  known.any fun r => (s.runs r).any fun run => run.group = g ∧ run.point.closedBranch

theorem answeredIn_of_answered {known : List RunId} {g : GroupId}
    (all : ∀ r, r ∉ known → s.runs r = none) (answered : Answered s g) :
    answeredIn known s g = true := by
  obtain ⟨r, p, running, branch⟩ := answered
  have mem : r ∈ known := by
    by_contra out
    simp [all r out] at running
  simp only [answeredIn, List.any_eq_true]
  exact ⟨r, mem, by simp [running, branch]⟩

def soleReaderIn (known : List RunId) (s : State K) : Action → Bool
  | .run r => (s.runs r).all fun run => (run.point ≠ .readClosed ∧ run.point ≠ .take) ∨
      (s.heap run.group).requests = none ∨ answeredIn known s run.group = false
  | _ => true

theorem soleReader_of_soleReaderIn {known : List RunId}
    (all : ∀ r, r ∉ known → s.runs r = none) (passed : soleReaderIn known s a = true) :
    soleReader s a := by
  rintro r g p rfl running entering present answered
  have found := answeredIn_of_answered all answered
  simp [soleReaderIn, running, present, found] at passed
  rcases entering with rfl | rfl <;> simp at passed

section
variable [DecidableEq K] {k : K}

theorem reach_custody (reach : Reach (step maxBatchSize key) soleReader (init k) s) :
    ∃ reader, Custody reader s := by
  induction reach with
  | start => exact ⟨_, custody_init k⟩
  | next before sole taken ih =>
    obtain ⟨reader, custody⟩ := ih
    obtain ⟨place, located⟩ := reach_located before
    exact custody_step (reach_shape before) located custody sole (step_transition taken)

theorem close_no_duplicate (reach : Reach (step maxBatchSize key) soleReader (init k) s) :
    NoDuplicate s := by
  obtain ⟨reader, custody⟩ := reach_custody reach
  exact ⟨fun c refused => custody.refused_not_executed refused, custody.once⟩

end

/-- The timer fires before the batch fills and both runs straddle Close. -/
def doubleRead : List Action :=
  [.invoke 0, .call 0, .call 0, .call 0, .call 0,
   .invoke 1, .call 1, .call 1, .fire 0, .run (.timer 0),
   .call 1, .call 1, .call 1, .call 1, .close,
   .run (.full 1), .run (.full 1), .run (.full 1), .receive 0,
   .run (.timer 0), .run (.timer 0), .execute (.timer 0) [{}, {}]]

theorem close_duplicates :
    ∃ s, Reach (step 2 fun _ => lit "k") free (init (lit "k")) s ∧ ¬ NoDuplicate s := by
  obtain ⟨s, reach, test⟩ := free_of_test (step 2 fun _ => lit "k") (init (lit "k")) doubleRead
    (fun s => (s.calls 0).refused && decide (0 ∈ s.executed)) (by decide)
  simp only [Bool.and_eq_true, decide_eq_true_eq] at test
  exact ⟨s, reach, fun safe => safe.1 0 test.1 test.2⟩

def closedFlush : List Action :=
  [.invoke 0, .call 0, .call 0, .call 0, .call 0, .close, .fire 0,
   .run (.timer 0), .run (.timer 0), .run (.timer 0), .receive 0]

theorem close_no_duplicate_flush :
    ∃ s, Reach (step 2 fun _ => lit "k") soleReader (init (lit "k")) s ∧
      (s.calls 0).refused = true ∧ NoDuplicate s := by
  have known : ∀ r, r ∉ started closedFlush → (init (lit "k")).runs r = none := fun _ _ => rfl
  obtain ⟨s, reach, -, test⟩ : ∃ s, Reach (step 2 fun _ => lit "k") soleReader (init (lit "k")) s ∧
      (∀ r, r ∉ started closedFlush → s.runs r = none) ∧ (s.calls 0).refused = true :=
    reach_of_test (soleReaderIn (started closedFlush)) closedFlush known
      (fun _ _ _ mem known taken => runs_started mem known taken)
      (fun _ _ => soleReader_of_soleReaderIn) (fun s => (s.calls 0).refused) (by decide)
  exact ⟨s, reach, test, close_no_duplicate reach⟩

end TQDBProxy.WriteBatchManager
