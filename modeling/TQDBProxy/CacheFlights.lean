import Mathlib.Logic.Function.Basic
import TQDBProxy.GuardedRuns
import TQDBProxy.ProxyEvents

/-! The flights of the cache: `GetOrWait`, `SetAndNotify` and `CancelInflight`, called by
anyone for any key in any order. One step is one operation on the store or on the map
of flights, or one event of a channel; `LoadAndDelete` and the close of the channel are
two steps, between which the flight is with the call alone. -/

namespace TQDBProxy.CacheFlights

open GuardedRuns

abbrev CallerId := Nat
abbrev FlightId := Nat

variable {K V : Type}

/-- What `GetOrWait` returns: the value with its flag if there is one, and whether
another caller was waited for. -/
structure Answer (V : Type) where
  value : Option (V × CacheFlag)
  waited : Bool

/-- Program points of the three calls, each before the step it is named after. -/
inductive Point (K V : Type) where
  | idle
  | get (key : K)
  | loadOrStore (key : K)
  | wait (key : K) (f : FlightId)
  | getAgain (key : K)
  | set (key : K) (value : V) (kept : Bool)
  | loadAndDelete (key : K)
  | close (f : FlightId)
  deriving DecidableEq

/-- Where a flight is: not yet created, under a key of the map, with the call that
removed it, or closed. -/
inductive Place (K : Type) where
  | unborn
  | mapped (key : K)
  | removed (c : CallerId)
  | closed

/-- `place`, `registrant` and `called` are histories that the program never reads: where each
flight is, who registered it, and whether that caller has ended a flight of the key since. -/
structure State (K V : Type) where
  store : K → Option V := fun _ => none
  inflight : K → Option FlightId := fun _ => none
  closes : FlightId → Nat := fun _ => 0
  fresh : FlightId := 0
  points : CallerId → Point K V := fun _ => .idle
  answers : CallerId → Option (Answer V) := fun _ => none
  place : FlightId → Place K := fun _ => .unborn
  registrant : FlightId → Option (CallerId × K) := fun _ => none
  called : FlightId → Bool := fun _ => false

namespace State

def setPoint (s : State K V) (c : CallerId) (p : Point K V) : State K V :=
  { s with points := Function.update s.points c p }

def answer (s : State K V) (c : CallerId) (value : Option (V × CacheFlag)) (waited : Bool) :
    State K V :=
  { s with answers := Function.update s.answers c (some ⟨value, waited⟩) }.setPoint c .idle

def closeFlight (s : State K V) (c : CallerId) (f : FlightId) : State K V :=
  { s with
    closes := Function.update s.closes f (s.closes f + 1)
    place := Function.update s.place f .closed }.setPoint c .idle

variable [DecidableEq K]

def setEntry (s : State K V) (key : K) (value : Option V) : State K V :=
  { s with store := Function.update s.store key value }

def register (s : State K V) (c : CallerId) (key : K) : State K V :=
  { s with
    inflight := Function.update s.inflight key (some s.fresh)
    fresh := s.fresh + 1
    place := Function.update s.place s.fresh (.mapped key)
    registrant := Function.update s.registrant s.fresh (some (c, key)) }

def takeFlight (s : State K V) (c : CallerId) (key : K) (f : FlightId) : State K V :=
  { s with
    inflight := Function.update s.inflight key none
    place := Function.update s.place f (.removed c) }.setPoint c (.close f)

def noteCall (s : State K V) (c : CallerId) (key : K) : State K V :=
  { s with called := fun f => s.called f || decide (s.registrant f = some (c, key)) }

/-- `LoadAndDelete`. -/
def remove (s : State K V) (c : CallerId) (key : K) : State K V :=
  match s.inflight key with
  | some f => (s.takeFlight c key f).noteCall c key
  | none => (s.setPoint c .idle).noteCall c key

end State

inductive Action (K V : Type) where
  | getOrWait (c : CallerId) (key : K)
  | setAndNotify (c : CallerId) (key : K) (value : V) (kept : Bool)
  | cancelInflight (c : CallerId) (key : K)
  | advance (c : CallerId) (flag : CacheFlag)
  | timeout (c : CallerId)
  | expire (key : K)

/-- The next step of a call; a read of the store reports any flag. -/
def advance [DecidableEq K] (s : State K V) (c : CallerId) (flag : CacheFlag) :
    Option (State K V) :=
  match s.points c with
  | .idle => none
  | .get key =>
    match s.store key with
    | some value => some (s.answer c (some (value, flag)) false)
    | none => some (s.setPoint c (.loadOrStore key))
  | .loadOrStore key =>
    match s.inflight key with
    | some f => some (s.setPoint c (.wait key f))
    | none => some ((s.register c key).answer c none false)
  | .wait key f => if s.closes f = 0 then none else some (s.setPoint c (.getAgain key))
  | .getAgain key => some (s.answer c ((s.store key).map (·, flag)) true)
  | .set key value kept =>
    some ((if kept then s.setEntry key (some value) else s).setPoint c (.loadAndDelete key))
  | .loadAndDelete key => some (s.remove c key)
  | .close f => some (s.closeFlight c f)

/-- Calls begin at any time; `kept` says that the time to live is positive. -/
def step [DecidableEq K] (s : State K V) : Action K V → Option (State K V)
  | .getOrWait c key =>
    match s.points c with
    | .idle => some (s.setPoint c (.get key))
    | _ => none
  | .setAndNotify c key value kept =>
    match s.points c with
    | .idle => some (s.setPoint c (.set key value kept))
    | _ => none
  | .cancelInflight c key =>
    match s.points c with
    | .idle => some (s.setPoint c (.loadAndDelete key))
    | _ => none
  | .advance c flag => advance s c flag
  | .timeout c =>
    match s.points c with
    | .wait _ _ => some (s.answer c none true)
    | _ => none
  | .expire key => some (s.setEntry key none)

/-- A flight is in one place only, and its caller has not ended it while it is in the map. -/
structure Tracked (s : State K V) : Prop where
  unborn : ∀ f, s.place f = .unborn ↔ s.fresh ≤ f
  mapped : ∀ key f, s.inflight key = some f ↔ s.place f = .mapped key
  removed : ∀ c f, s.points c = .close f ↔ s.place f = .removed c
  unclosed : ∀ f, s.place f ≠ .closed → s.closes f = 0
  closed : ∀ f, s.place f = .closed → s.closes f = 1
  owned : ∀ key f, s.place f = .mapped key → s.called f = false ∧
    ∃ c, s.registrant f = some (c, key)
  unowned : ∀ f, s.place f = .unborn → s.called f = false ∧ s.registrant f = none
  waits : ∀ c key f, s.points c = .wait key f → ∃ d, s.registrant f = some (d, key)

variable {s t : State K V} {c : CallerId} {key : K} {f : FlightId}

theorem tracked_start : Tracked ({} : State K V) := by
  constructor <;> simp

theorem Tracked.setPoint (tracked : Tracked s) {p : Point K V} (old : ∀ f, s.points c ≠ .close f)
    (new : ∀ f, p ≠ .close f) (waits : ∀ key f, p = .wait key f →
      ∃ d, s.registrant f = some (d, key)) :
    Tracked (s.setPoint c p) :=
  { tracked with
    removed := by
      intro d g
      by_cases same : d = c
      · subst d
        refine ⟨fun at_g => absurd (by simpa [State.setPoint] using at_g) (new g), fun placed => ?_⟩
        exact absurd ((tracked.removed c g).mpr placed) (old g)
      · simpa [State.setPoint, same] using tracked.removed d g
    waits := by
      intro d key g waiting
      by_cases same : d = c
      · subst d
        exact waits key g (by simpa [State.setPoint] using waiting)
      · exact tracked.waits d key g (by simpa [State.setPoint, same] using waiting) }

theorem Tracked.answer (tracked : Tracked s) (old : ∀ f, s.points c ≠ .close f)
    (value : Option (V × CacheFlag)) (waited : Bool) : Tracked (s.answer c value waited) := by
  have noted : Tracked { s with answers := Function.update s.answers c (some ⟨value, waited⟩) } :=
    { tracked with }
  exact noted.setPoint old (by simp) (by simp)

/-- One flight goes to another place; the maps, the calls and the channels follow it. -/
structure Moves (s t : State K V) (f : FlightId) (q : Place K) : Prop where
  place : t.place = Function.update s.place f q
  unborn : q ≠ .unborn
  fresh : ∀ g, t.fresh ≤ g ↔ g ≠ f ∧ s.fresh ≤ g
  inflight : ∀ key g, t.inflight key = some g ↔
    if g = f then q = .mapped key else s.inflight key = some g
  points : ∀ c g, t.points c = .close g ↔ if g = f then q = .removed c else s.points c = .close g
  closes : ∀ g, g ≠ f → t.closes g = s.closes g
  unclosed : q ≠ .closed → t.closes f = 0
  closed : q = .closed → t.closes f = 1
  called : ∀ g, g ≠ f → t.called g = s.called g
  registrant : ∀ g, g ≠ f → t.registrant g = s.registrant g
  owned : ∀ key, q = .mapped key → t.called f = false ∧ ∃ c, t.registrant f = some (c, key)
  waits : ∀ c key g, t.points c = .wait key g → ∃ d, t.registrant g = some (d, key)

theorem Tracked.move (tracked : Tracked s) {q : Place K} (moves : Moves s t f q) : Tracked t where
  unborn g := by
    rw [moves.place, moves.fresh]
    by_cases same : g = f
    · simp [same, moves.unborn]
    · simp [same, tracked.unborn]
  mapped key g := by
    rw [moves.place, moves.inflight]
    by_cases same : g = f
    · simp [same]
    · simp [same, tracked.mapped]
  removed c g := by
    rw [moves.place, moves.points]
    by_cases same : g = f
    · simp [same]
    · simp [same, tracked.removed]
  unclosed g := by
    rw [moves.place]
    by_cases same : g = f
    · subst g
      simpa using moves.unclosed
    · simpa [same, moves.closes g same] using tracked.unclosed g
  closed g := by
    rw [moves.place]
    by_cases same : g = f
    · subst g
      simpa using moves.closed
    · simpa [same, moves.closes g same] using tracked.closed g
  owned key g := by
    rw [moves.place]
    by_cases same : g = f
    · subst g
      simpa using moves.owned key
    · simpa [same, moves.called g same, moves.registrant g same] using tracked.owned key g
  unowned g := by
    rw [moves.place]
    by_cases same : g = f
    · simp [same, moves.unborn]
    · simpa [same, moves.called g same, moves.registrant g same] using tracked.unowned g
  waits := moves.waits

theorem Tracked.born (tracked : Tracked s) (placed : s.place f ≠ .unborn) (g : FlightId) :
    s.fresh ≤ g ↔ g ≠ f ∧ s.fresh ≤ g := by
  refine ⟨fun le => ⟨?_, le⟩, And.right⟩
  rintro rfl
  exact placed ((tracked.unborn g).mpr le)

theorem Tracked.closeFlight (tracked : Tracked s) (mine : s.points c = .close f) :
    Tracked (s.closeFlight c f) := by
  have placed : s.place f = .removed c := (tracked.removed c f).mp mine
  refine tracked.move (f := f) (q := .closed)
    ⟨rfl, by simp, tracked.born (by simp [placed]), ?_, ?_, ?_, by simp, ?_,
    fun _ _ => rfl, fun _ _ => rfl, by simp, ?_⟩
  · intro k g
    split_ifs with same
    · rw [same]
      simp [State.closeFlight, State.setPoint, tracked.mapped, placed]
    · rfl
  · intro d g
    by_cases here : d = c
    · by_cases same : g = f
      · simp [State.closeFlight, State.setPoint, here, same]
      · simp [State.closeFlight, State.setPoint, here, same, mine, Ne.symm same]
    · by_cases same : g = f
      · have other : s.points d ≠ .close f := by
          rw [ne_eq, tracked.removed, placed]
          simpa [eq_comm] using here
        simp [State.closeFlight, State.setPoint, here, same, other]
      · simp [State.closeFlight, State.setPoint, here, same]
  · intro g same
    simp [State.closeFlight, State.setPoint, same]
  · intro _
    simp [State.closeFlight, State.setPoint, tracked.unclosed f (by simp [placed])]
  · intro d k g waiting
    by_cases here : d = c
    · simp [State.closeFlight, State.setPoint, here] at waiting
    · exact tracked.waits d k g (by simpa [State.closeFlight, State.setPoint, here] using waiting)

theorem Tracked.somewhere (tracked : Tracked s) {d : CallerId}
    (known : s.registrant f = some (d, key)) :
    s.inflight key = some f ∨ s.closes f = 1 ∨ ∃ c, s.points c = .close f := by
  cases placed : s.place f with
  | unborn =>
    rw [(tracked.unowned f placed).2] at known
    cases known
  | mapped k =>
    obtain ⟨-, e, same⟩ := tracked.owned k f placed
    obtain ⟨-, rfl⟩ : d = e ∧ key = k := by simpa [known] using same
    exact .inl ((tracked.mapped key f).mpr placed)
  | removed c => exact .inr (.inr ⟨c, (tracked.removed c f).mpr placed⟩)
  | closed => exact .inr (.inl (tracked.closed f placed))

section
variable [DecidableEq K]

theorem Tracked.setEntry (tracked : Tracked s) (value : Option V) :
    Tracked (s.setEntry key value) :=
  { tracked with }

theorem Tracked.register (tracked : Tracked s) (free : s.inflight key = none) :
    Tracked (s.register c key) := by
  have new : s.place s.fresh = .unborn := (tracked.unborn _).mpr (Nat.le_refl _)
  obtain ⟨uncalled, unknown⟩ := tracked.unowned s.fresh new
  refine tracked.move (f := s.fresh) (q := .mapped key)
    ⟨rfl, by simp, ?_, ?_, ?_, fun _ _ => rfl, ?_, by simp,
    fun _ _ => rfl, ?_, ?_, ?_⟩
  · intro g
    exact ⟨fun le => ⟨Nat.ne_of_gt le, Nat.le_of_succ_le le⟩,
      fun ⟨ne, le⟩ => Nat.lt_of_le_of_ne le (Ne.symm ne)⟩
  · intro k g
    by_cases here : k = key
    · by_cases same : g = s.fresh
      · simp [State.register, here, same]
      · simp [State.register, here, same, free, eq_comm]
    · by_cases same : g = s.fresh
      · have other : s.inflight k ≠ some s.fresh := by
          rw [ne_eq, tracked.mapped, new]
          simp
        simp [State.register, here, same, other, Ne.symm here]
      · simp [State.register, here, same]
  · intro d g
    split_ifs with same
    · rw [same]
      simp [State.register, tracked.removed, new]
    · rfl
  · exact fun _ => tracked.unclosed s.fresh (by simp [new])
  · intro g same
    simp [State.register, same]
  · rintro k ⟨⟩
    exact ⟨uncalled, c, by simp [State.register]⟩
  · intro d k g waiting
    obtain ⟨e, known⟩ := tracked.waits d k g waiting
    have other : g ≠ s.fresh := by
      rintro rfl
      rw [unknown] at known
      cases known
    exact ⟨e, by simpa [State.register, other] using known⟩

theorem Tracked.takeFlight (tracked : Tracked s) (old : ∀ f, s.points c ≠ .close f)
    (found : s.inflight key = some f) : Tracked (s.takeFlight c key f) := by
  have placed : s.place f = .mapped key := (tracked.mapped key f).mp found
  refine tracked.move (f := f) (q := .removed c)
    ⟨rfl, by simp, tracked.born (by simp [placed]), ?_, ?_,
    fun _ _ => rfl, ?_, by simp, fun _ _ => rfl, fun _ _ => rfl, by simp, ?_⟩
  · intro k g
    by_cases here : k = key
    · by_cases same : g = f
      · simp [State.takeFlight, State.setPoint, here, same]
      · simp [State.takeFlight, State.setPoint, here, same, found, Ne.symm same]
    · by_cases same : g = f
      · have other : s.inflight k ≠ some f := by
          rw [ne_eq, tracked.mapped, placed]
          simpa [eq_comm] using here
        simp [State.takeFlight, State.setPoint, here, same, other]
      · simp [State.takeFlight, State.setPoint, here, same]
  · intro d g
    by_cases here : d = c
    · by_cases same : g = f
      · simp [State.takeFlight, State.setPoint, here, same]
      · simp [State.takeFlight, State.setPoint, here, same, old, Ne.symm same]
    · by_cases same : g = f
      · have other : s.points d ≠ .close f := by
          rw [ne_eq, tracked.removed, placed]
          simp
        simp [State.takeFlight, State.setPoint, here, same, other, Ne.symm here]
      · simp [State.takeFlight, State.setPoint, here, same]
  · exact fun _ => tracked.unclosed f (by simp [placed])
  · intro d k g waiting
    by_cases here : d = c
    · simp [State.takeFlight, State.setPoint, here] at waiting
    · exact tracked.waits d k g (by simpa [State.takeFlight, State.setPoint, here] using waiting)

theorem Tracked.noteCall (tracked : Tracked s) (none : s.inflight key = none) :
    Tracked (s.noteCall c key) :=
  { tracked with
    owned := by
      intro k g placed
      obtain ⟨uncalled, d, known⟩ := tracked.owned k g placed
      have other : k ≠ key := by
        rintro rfl
        rw [(tracked.mapped k g).mpr placed] at none
        cases none
      exact ⟨by simp [State.noteCall, uncalled, known, other], d, known⟩
    unowned := by
      intro g placed
      obtain ⟨uncalled, unknown⟩ := tracked.unowned g placed
      exact ⟨by simp [State.noteCall, uncalled, unknown], unknown⟩ }

theorem Tracked.remove (tracked : Tracked s) (old : ∀ f, s.points c ≠ .close f) :
    Tracked (s.remove c key) := by
  unfold State.remove
  split
  · rename_i f found
    exact (tracked.takeFlight old found).noteCall (by simp [State.takeFlight, State.setPoint])
  · rename_i none
    exact (tracked.setPoint (p := .idle) old (by simp) (by simp)).noteCall none

theorem tracked_advance (tracked : Tracked s) {flag : CacheFlag}
    (taken : advance s c flag = some t) :
    Tracked t := by
  unfold advance at taken
  split at taken <;> rename_i point
  case h_1 => cases taken
  case h_8 f =>
    obtain rfl := Option.some.inj taken
    exact tracked.closeFlight point
  all_goals have old : ∀ f, s.points c ≠ .close f := by simp [point]
  case h_2 key =>
    split at taken <;> obtain rfl := Option.some.inj taken
    · exact tracked.answer old _ _
    · exact tracked.setPoint old (by simp) (by simp)
  case h_3 key =>
    split at taken <;> obtain rfl := Option.some.inj taken <;> rename_i found
    · refine tracked.setPoint old (by simp) ?_
      rintro k f ⟨⟩
      exact (tracked.owned key _ ((tracked.mapped key _).mp found)).2
    · exact (tracked.register found).answer old _ _
  case h_4 key f =>
    split_ifs at taken
    obtain rfl := Option.some.inj taken
    exact tracked.setPoint old (by simp) (by simp)
  case h_5 key =>
    obtain rfl := Option.some.inj taken
    exact tracked.answer old _ _
  case h_6 key value kept =>
    obtain rfl := Option.some.inj taken
    cases kept
    · exact tracked.setPoint old (by simp) (by simp)
    · exact (tracked.setEntry (some value)).setPoint old (by simp) (by simp)
  case h_7 key =>
    obtain rfl := Option.some.inj taken
    exact tracked.remove old

theorem tracked_step {a : Action K V} (tracked : Tracked s) (taken : step s a = some t) :
    Tracked t := by
  cases a with
  | getOrWait c key | setAndNotify c key value kept | cancelInflight c key =>
    simp only [step] at taken
    split at taken
    · rename_i point
      obtain rfl := Option.some.inj taken
      exact tracked.setPoint (by simp [point]) (by simp) (by simp)
    · cases taken
  | advance c flag => exact tracked_advance tracked taken
  | timeout c =>
    simp only [step] at taken
    split at taken
    · rename_i point
      obtain rfl := Option.some.inj taken
      exact tracked.answer (by simp [point]) _ _
    · cases taken
  | expire key =>
    obtain rfl := Option.some.inj taken
    exact tracked.setEntry none

/-- No channel is closed twice, the map holds no flight whose registrant has made its
call, and no waiter waits on a flight that nobody will close. -/
theorem flights_released_once (reach : Reach step free ({} : State K V) s) :
    (∀ f, s.closes f ≤ 1) ∧
    (∀ key f, s.inflight key = some f → (∃ c, s.registrant f = some (c, key)) ∧
      s.called f = false) ∧
    (∀ f, s.called f = true → s.closes f = 1 ∨ ∃ c, s.points c = .close f) ∧
    ∀ c key f, s.points c = .wait key f →
      s.inflight key = some f ∨ s.closes f = 1 ∨ ∃ d, s.points d = .close f := by
  have tracked : Tracked s := reach.invariant tracked_start fun _ _ _ tracked _ =>
    tracked_step tracked
  refine ⟨fun f => ?_, fun key f found => ?_, fun f made => ?_, fun c key f waiting => ?_⟩
  · by_cases placed : s.place f = .closed
    · exact Nat.le_of_eq (tracked.closed f placed)
    · rw [tracked.unclosed f placed]
      exact Nat.zero_le 1
  · obtain ⟨uncalled, known⟩ := tracked.owned key f ((tracked.mapped key f).mp found)
    exact ⟨known, uncalled⟩
  · cases placed : s.place f with
    | unborn => simp [(tracked.unowned f placed).1] at made
    | mapped key => simp [(tracked.owned key f placed).1] at made
    | removed c => exact .inr ⟨c, (tracked.removed c f).mpr placed⟩
    | closed => exact .inl (tracked.closed f placed)
  · obtain ⟨d, known⟩ := tracked.waits c key f waiting
    exact tracked.somewhere known

end

/-- Caller 0 registers a flight and caller 1 waits for it; caller 2, which has fallen
through, removes it and has not closed it yet. -/
def takenOver : List (Action Nat Nat) :=
  [.getOrWait 0 7, .advance 0 .fresh, .advance 0 .fresh, .getOrWait 1 7, .advance 1 .fresh,
    .advance 1 .fresh,
    .setAndNotify 2 7 5 true, .advance 2 .fresh, .advance 2 .fresh]

theorem flights_released_once_taken_over :
    ∃ s : State Nat Nat, s.points 1 = .wait 7 0 ∧ s.registrant 0 = some (0, 7) ∧
      s.inflight 7 = none ∧
      s.closes 0 = 0 ∧ (s.inflight 7 = some 0 ∨ s.closes 0 = 1 ∨ ∃ d, s.points d = .close 0) := by
  obtain ⟨s, reach, seen⟩ := free_of_test step ({} : State Nat Nat) takenOver
    (fun s => s.points 1 = .wait 7 0 && s.registrant 0 = some (0, 7) && s.inflight 7 =
      none && s.closes 0 = 0)
    (by decide)
  obtain ⟨⟨⟨waiting, owner⟩, none⟩,
    unclosed⟩ : ((s.points 1 = .wait 7 0 ∧ s.registrant 0 = some (0, 7)) ∧
      s.inflight 7 = none) ∧ s.closes 0 = 0 := by simpa using seen
  exact ⟨s, waiting, owner, none, unclosed, (flights_released_once reach).2.2.2 1 7 0 waiting⟩

end TQDBProxy.CacheFlights
