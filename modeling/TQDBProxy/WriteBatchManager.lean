import Mathlib.Logic.Function.Basic
import TQDBProxy.GuardedRuns
import TQDBProxy.WriteBatchTypes

/-! The write-batch manager as an interleaving of atomic steps.
One step is one `sync.Map` operation, one `group.mu` critical section, one
atomic load of `closed`, one timer event or one channel operation. The full
batch path keeps `group.mu` across `groups.Delete`, so its critical section is
two steps with the group locked in between.

An Enqueue call and the request it appends share one identifier. An executeBatch
goroutine is named after what started it, the group's timer or the call that filled the
batch. What the database does is left to `WriteBatchExecutor`, and a call without a delay, which
is executed at once and joins no batch, is left out. -/

namespace TQDBProxy.WriteBatchManager

abbrev CallId := Nat
abbrev GroupId := Nat

inductive Timer where
  | unset | armed | fired | stopped
  deriving DecidableEq

structure BatchGroup (K : Type) where
  batchKey : K
  requests : Option (List CallId)
  timer : Timer
  locked : Bool

/-- Program points of `Enqueue`, each before the step it is named after. -/
inductive CallPoint where
  | absent
  | loadClosed
  | rejected
  | loadGroup
  | loadOrStore
  | lockGroup (g : GroupId)
  | deleteGroup (g : GroupId)
  | stopTimer (g : GroupId)
  | spawn (g : GroupId)
  | wait
  | returned (result : WriteResult)
  deriving DecidableEq

/-- Program points of `executeBatch`. `answer` holds the requests the closed
branch has still to answer, `deliver` those whose results are still unsent. -/
inductive RunPoint where
  | loadClosed
  | readClosed
  | answer (requests : List CallId)
  | answered
  | take
  | compareAndDelete (requests : List CallId)
  | execute (requests : List CallId)
  | deliver (results : List (CallId × WriteResult))
  | done
  deriving DecidableEq

inductive RunId where
  | timer (g : GroupId)
  | full (c : CallId)
  deriving DecidableEq

structure Run where
  group : GroupId
  point : RunPoint
  deriving DecidableEq

/-- `taken`, `executed` and `sent` are histories; the program never reads them. -/
structure State (K : Type) where
  closed : Bool
  groups : K → Option GroupId
  heap : GroupId → BatchGroup K
  fresh : GroupId
  calls : CallId → CallPoint
  runs : RunId → Option Run
  channel : CallId → Option WriteResult
  taken : RunId → List CallId
  executed : List CallId
  sent : CallId → List WriteResult

variable {K : Type} [DecidableEq K]

def State.setCall (s : State K) (c : CallId) (p : CallPoint) : State K :=
  { s with calls := Function.update s.calls c p }

def State.setRun (s : State K) (r : RunId) (g : GroupId) (p : RunPoint) : State K :=
  { s with runs := Function.update s.runs r (some ⟨g, p⟩) }

def State.setGroup (s : State K) (g : GroupId) (b : BatchGroup K) : State K :=
  { s with heap := Function.update s.heap g b }

def State.setKey (s : State K) (k : K) (g : Option GroupId) : State K :=
  { s with groups := Function.update s.groups k g }

def State.send (s : State K) (c : CallId) (result : WriteResult) : State K :=
  { s with
    channel := Function.update s.channel c (some result),
    sent := Function.update s.sent c (s.sent c ++ [result]) }

inductive Action where
  | invoke (c : CallId)
  | call (c : CallId)
  | receive (c : CallId)
  | cancel (c : CallId)
  | fire (g : GroupId)
  | run (r : RunId)
  | execute (r : RunId) (results : List WriteResult)
  | close
  deriving DecidableEq

/-- The critical section of `Enqueue` after `group.mu.Lock`. -/
def enqueueLocked (maxBatchSize : Nat) (s : State K) (c : CallId) (g : GroupId) : State K :=
  match (s.heap g).requests with
  | none => s.setCall c .loadClosed
  | some requests =>
    let group := { s.heap g with requests := some (requests ++ [c]) }
    if requests = [] then
      (s.setGroup g { group with timer := .armed }).setCall c .wait
    else if maxBatchSize ≤ requests.length + 1 then
      (s.setGroup g { group with locked := true }).setCall c (.deleteGroup g)
    else
      (s.setGroup g group).setCall c .wait

def newGroup (k : K) : BatchGroup K := ⟨k, some [], .unset, false⟩

def callStep (maxBatchSize : Nat) (key : CallId → K) (s : State K) (c : CallId) :
    Option (State K) :=
  match s.calls c with
  | .loadClosed =>
    some (if s.closed then s.setCall c .rejected else s.setCall c .loadGroup)
  | .loadGroup =>
    match s.groups (key c) with
    | some g => some (s.setCall c (.lockGroup g))
    | none => some (s.setCall c .loadOrStore)
  | .loadOrStore =>
    match s.groups (key c) with
    | some g => some (s.setCall c (.lockGroup g))
    | none => some
        ((({ s with fresh := s.fresh + 1 }.setGroup s.fresh (newGroup (key c))).setKey
          (key c) (some s.fresh)).setCall c (.lockGroup s.fresh))
  | .lockGroup g =>
    if (s.heap g).locked then none else some (enqueueLocked maxBatchSize s c g)
  | .deleteGroup g =>
    some (((s.setKey (key c) none).setGroup g { s.heap g with locked := false }).setCall c
      (.stopTimer g))
  | .stopTimer g =>
    let timer := if (s.heap g).timer = .armed then .stopped else (s.heap g).timer
    some ((s.setGroup g { s.heap g with timer := timer }).setCall c (.spawn g))
  | .spawn g => some ((s.setRun (.full c) g .loadClosed).setCall c .wait)
  | .absent | .rejected | .wait | .returned _ => none

def runStep (s : State K) (r : RunId) (g : GroupId) : RunPoint → Option (State K)
  | .loadClosed => some (s.setRun r g (if s.closed then .readClosed else .take))
  | .readClosed =>
    if (s.heap g).locked then none
    else some (s.setRun r g (.answer ((s.heap g).requests.getD [])))
  | .answer [] => some (s.setRun r g .answered)
  | .answer (c :: rest) =>
    if s.channel c = none then
      some ((s.send c (.failed .managerClosed)).setRun r g (.answer rest))
    else none
  | .take =>
    if (s.heap g).locked then none
    else
      let requests := (s.heap g).requests.getD []
      some (({ s with taken := Function.update s.taken r requests }.setGroup g
        { s.heap g with requests := none }).setRun r g (.compareAndDelete requests))
  | .compareAndDelete requests =>
    let k := (s.heap g).batchKey
    let s := if s.groups k = some g then s.setKey k none else s
    some (s.setRun r g (if requests = [] then .done else .execute requests))
  | .deliver [] => some (s.setRun r g .done)
  | .deliver ((c, result) :: rest) =>
    if s.channel c = none then some ((s.send c result).setRun r g (.deliver rest)) else none
  | .answered | .execute _ | .done => none

def step (maxBatchSize : Nat) (key : CallId → K) (s : State K) : Action → Option (State K)
  | .invoke c => if s.calls c = .absent then some (s.setCall c .loadClosed) else none
  | .call c => callStep maxBatchSize key s c
  | .receive c =>
    match s.calls c, s.channel c with
    | .wait, some result =>
      some ({ s with channel := Function.update s.channel c none }.setCall c (.returned result))
    | _, _ => none
  | .cancel c =>
    if s.calls c = .wait then some (s.setCall c (.returned (.failed .canceled))) else none
  | .fire g =>
    if (s.heap g).timer = .armed then
      some ((s.setGroup g { s.heap g with timer := .fired }).setRun (.timer g) g .loadClosed)
    else none
  | .run r =>
    match s.runs r with
    | some ⟨g, p⟩ => runStep s r g p
    | none => none
  | .execute r results =>
    match s.runs r with
    | some ⟨g, .execute requests⟩ =>
      if results.length = requests.length ∧
          ∀ result ∈ results, result.error ≠ some .managerClosed then
        some ({ s with executed := s.executed ++ requests }.setRun r g
          (.deliver (requests.zip results)))
      else none
    | _ => none
  | .close => some { s with closed := true }

/-- What one step can do, guards included: the steps of `step` one by one. -/
inductive Transition (maxBatchSize : Nat) (key : CallId → K) (s : State K) :
    Action → State K → Prop where
  | invoke (c : CallId) : s.calls c = .absent →
      Transition maxBatchSize key s (.invoke c) (s.setCall c .loadClosed)
  | reject (c : CallId) : s.calls c = .loadClosed → s.closed = true →
      Transition maxBatchSize key s (.call c) (s.setCall c .rejected)
  | proceed (c : CallId) : s.calls c = .loadClosed → s.closed = false →
      Transition maxBatchSize key s (.call c) (s.setCall c .loadGroup)
  | found (c : CallId) (g : GroupId) : s.calls c = .loadGroup ∨ s.calls c = .loadOrStore →
      s.groups (key c) = some g →
      Transition maxBatchSize key s (.call c) (s.setCall c (.lockGroup g))
  | missed (c : CallId) : s.calls c = .loadGroup →
      Transition maxBatchSize key s (.call c) (s.setCall c .loadOrStore)
  | created (c : CallId) : s.calls c = .loadOrStore → s.groups (key c) = none →
      Transition maxBatchSize key s (.call c)
        ((({ s with fresh := s.fresh + 1 }.setGroup s.fresh (newGroup (key c))).setKey
          (key c) (some s.fresh)).setCall c (.lockGroup s.fresh))
  | retry (c : CallId) (g : GroupId) : s.calls c = .lockGroup g → (s.heap g).requests = none →
      Transition maxBatchSize key s (.call c) (s.setCall c .loadClosed)
  | first (c : CallId) (g : GroupId) : s.calls c = .lockGroup g →
      (s.heap g).requests = some [] →
      Transition maxBatchSize key s (.call c)
        ((s.setGroup g { s.heap g with requests := some [c], timer := .armed }).setCall c .wait)
  | fill (c : CallId) (g : GroupId) (requests : List CallId) : s.calls c = .lockGroup g →
      (s.heap g).requests = some requests → requests ≠ [] →
      maxBatchSize ≤ requests.length + 1 →
      Transition maxBatchSize key s (.call c)
        ((s.setGroup g { s.heap g with requests := some (requests ++ [c]), locked := true }).setCall
          c (.deleteGroup g))
  | join (c : CallId) (g : GroupId) (requests : List CallId) : s.calls c = .lockGroup g →
      (s.heap g).requests = some requests → requests ≠ [] →
      requests.length + 1 < maxBatchSize →
      Transition maxBatchSize key s (.call c)
        ((s.setGroup g { s.heap g with requests := some (requests ++ [c]) }).setCall c .wait)
  | delete (c : CallId) (g : GroupId) : s.calls c = .deleteGroup g →
      Transition maxBatchSize key s (.call c)
        (((s.setKey (key c) none).setGroup g { s.heap g with locked := false }).setCall c
          (.stopTimer g))
  | stop (c : CallId) (g : GroupId) : s.calls c = .stopTimer g →
      Transition maxBatchSize key s (.call c)
        ((s.setGroup g { s.heap g with
          timer := if (s.heap g).timer = .armed then .stopped else (s.heap g).timer }).setCall c
            (.spawn g))
  | spawn (c : CallId) (g : GroupId) : s.calls c = .spawn g →
      Transition maxBatchSize key s (.call c) ((s.setRun (.full c) g .loadClosed).setCall c .wait)
  | receive (c : CallId) (result : WriteResult) : s.calls c = .wait →
      s.channel c = some result →
      Transition maxBatchSize key s (.receive c)
        ({ s with channel := Function.update s.channel c none }.setCall c (.returned result))
  | cancel (c : CallId) : s.calls c = .wait →
      Transition maxBatchSize key s (.cancel c) (s.setCall c (.returned (.failed .canceled)))
  | fire (g : GroupId) : (s.heap g).timer = .armed →
      Transition maxBatchSize key s (.fire g)
        ((s.setGroup g { s.heap g with timer := .fired }).setRun (.timer g) g .loadClosed)
  | enter (r : RunId) (g : GroupId) : s.runs r = some ⟨g, .loadClosed⟩ →
      Transition maxBatchSize key s (.run r)
        (s.setRun r g (if s.closed then .readClosed else .take))
  | readClosed (r : RunId) (g : GroupId) : s.runs r = some ⟨g, .readClosed⟩ →
      Transition maxBatchSize key s (.run r)
        (s.setRun r g (.answer ((s.heap g).requests.getD [])))
  | answered (r : RunId) (g : GroupId) : s.runs r = some ⟨g, .answer []⟩ →
      Transition maxBatchSize key s (.run r) (s.setRun r g .answered)
  | answer (r : RunId) (g : GroupId) (c : CallId) (rest : List CallId) :
      s.runs r = some ⟨g, .answer (c :: rest)⟩ → s.channel c = none →
      Transition maxBatchSize key s (.run r)
        ((s.send c (.failed .managerClosed)).setRun r g (.answer rest))
  | take (r : RunId) (g : GroupId) : s.runs r = some ⟨g, .take⟩ →
      Transition maxBatchSize key s (.run r)
        (({ s with taken := Function.update s.taken r ((s.heap g).requests.getD []) }.setGroup g
          { s.heap g with requests := none }).setRun r g
            (.compareAndDelete ((s.heap g).requests.getD [])))
  | compareAndDelete (r : RunId) (g : GroupId) (requests : List CallId) :
      s.runs r = some ⟨g, .compareAndDelete requests⟩ →
      Transition maxBatchSize key s (.run r)
        ((if s.groups (s.heap g).batchKey = some g then s.setKey (s.heap g).batchKey none
          else s).setRun r g (if requests = [] then .done else .execute requests))
  | delivered (r : RunId) (g : GroupId) : s.runs r = some ⟨g, .deliver []⟩ →
      Transition maxBatchSize key s (.run r) (s.setRun r g .done)
  | deliver (r : RunId) (g : GroupId) (c : CallId) (result : WriteResult)
      (rest : List (CallId × WriteResult)) :
      s.runs r = some ⟨g, .deliver ((c, result) :: rest)⟩ → s.channel c = none →
      Transition maxBatchSize key s (.run r) ((s.send c result).setRun r g (.deliver rest))
  | execute (r : RunId) (g : GroupId) (requests : List CallId) (results : List WriteResult) :
      s.runs r = some ⟨g, .execute requests⟩ → results.length = requests.length →
      (∀ result ∈ results, result.error ≠ some .managerClosed) →
      Transition maxBatchSize key s (.execute r results)
        ({ s with executed := s.executed ++ requests }.setRun r g
          (.deliver (requests.zip results)))
  | close : Transition maxBatchSize key s .close { s with closed := true }

theorem callStep_transition {maxBatchSize : Nat} {key : CallId → K} {s t : State K} {c : CallId}
    (taken : callStep maxBatchSize key s c = some t) :
    Transition maxBatchSize key s (.call c) t := by
  unfold callStep at taken
  split at taken <;> rename_i point
  case h_1 =>
    obtain rfl := Option.some.inj taken
    cases closed : s.closed
    · exact .proceed c point closed
    · exact .reject c point closed
  case h_2 =>
    split at taken <;> rename_i found
    · obtain rfl := Option.some.inj taken
      exact .found c _ (.inl point) found
    · obtain rfl := Option.some.inj taken
      exact .missed c point
  case h_3 =>
    split at taken <;> rename_i found
    · obtain rfl := Option.some.inj taken
      exact .found c _ (.inr point) found
    · obtain rfl := Option.some.inj taken
      exact .created c point found
  case h_4 g =>
    split_ifs at taken with locked
    obtain rfl := Option.some.inj taken
    unfold enqueueLocked
    cases held : (s.heap g).requests with
    | none => exact .retry c g point held
    | some requests =>
      dsimp only
      split_ifs with empty full
      · subst empty
        exact .first c g point held
      · exact .fill c g requests point held empty full
      · exact .join c g requests point held empty (by omega)
  case h_5 g =>
    obtain rfl := Option.some.inj taken
    exact .delete c g point
  case h_6 g =>
    obtain rfl := Option.some.inj taken
    exact .stop c g point
  case h_7 g =>
    obtain rfl := Option.some.inj taken
    exact .spawn c g point
  all_goals cases taken

theorem runStep_transition {maxBatchSize : Nat} {key : CallId → K} {s t : State K} {r : RunId}
    {g : GroupId} {p : RunPoint} (point : s.runs r = some ⟨g, p⟩)
    (taken : runStep s r g p = some t) : Transition maxBatchSize key s (.run r) t := by
  unfold runStep at taken
  split at taken
  case h_1 =>
    obtain rfl := Option.some.inj taken
    exact .enter r g point
  case h_2 =>
    split_ifs at taken
    obtain rfl := Option.some.inj taken
    exact .readClosed r g point
  case h_3 =>
    obtain rfl := Option.some.inj taken
    exact .answered r g point
  case h_4 c rest =>
    split_ifs at taken with room
    obtain rfl := Option.some.inj taken
    exact .answer r g c rest point room
  case h_5 =>
    split_ifs at taken
    obtain rfl := Option.some.inj taken
    exact .take r g point
  case h_6 requests =>
    obtain rfl := Option.some.inj taken
    exact .compareAndDelete r g requests point
  case h_7 =>
    obtain rfl := Option.some.inj taken
    exact .delivered r g point
  case h_8 c result rest =>
    split_ifs at taken with room
    obtain rfl := Option.some.inj taken
    exact .deliver r g c result rest point room
  all_goals cases taken

theorem step_transition {maxBatchSize : Nat} {key : CallId → K} {s t : State K} {a : Action}
    (taken : step maxBatchSize key s a = some t) : Transition maxBatchSize key s a t := by
  cases a with
  | invoke c =>
    simp only [step] at taken
    split_ifs at taken with absent
    obtain rfl := Option.some.inj taken
    exact .invoke c absent
  | call c => exact callStep_transition taken
  | receive c =>
    simp only [step] at taken
    split at taken
    · rename_i result waiting full
      obtain rfl := Option.some.inj taken
      exact .receive c result waiting full
    · cases taken
  | cancel c =>
    simp only [step] at taken
    split_ifs at taken with waiting
    obtain rfl := Option.some.inj taken
    exact .cancel c waiting
  | fire g =>
    simp only [step] at taken
    split_ifs at taken with armed
    obtain rfl := Option.some.inj taken
    exact .fire g armed
  | run r =>
    simp only [step] at taken
    split at taken
    · rename_i g p point
      exact runStep_transition point taken
    · cases taken
  | execute r results =>
    simp only [step] at taken
    split at taken
    · rename_i g requests point
      split_ifs at taken with fits
      obtain rfl := Option.some.inj taken
      exact .execute r g requests results point fits.1 fits.2
    · cases taken
  | close =>
    obtain rfl := Option.some.inj taken
    exact .close

def init (k : K) : State K where
  closed := false
  groups := fun _ => none
  heap := fun _ => newGroup k
  fresh := 0
  calls := fun _ => .absent
  runs := fun _ => none
  channel := fun _ => none
  taken := fun _ => []
  executed := []
  sent := fun _ => []

end TQDBProxy.WriteBatchManager
