import Mathlib.Logic.Relation
import TQDBProxy.ReplicaHealth

/-! The health checks of a pool beside its other users. Every tick starts a goroutine for
each replica, which dials the address and then marks it; the marks of several rounds, the
reloads and the queries for a replica come in any order. -/

namespace TQDBProxy.LivePool

open Relation

/-- A goroutine of `checkReplica`: before the dial, with its answer, and after the mark. -/
inductive Stage where
  | dialing
  | dialed (answers : Bool)
  | done

structure Check where
  addr : GoString
  stage : Stage := .dialing

structure Monitored where
  traced : Traced
  checks : List Check := []

/-- The network and the address that `checkReplica` dials. -/
def dialTarget (addr : GoString) : GoString × GoString :=
  if addr.length > 5 ∧ addr.take 5 = lit "unix:" then (lit "unix", addr.drop 5) else
    (lit "tcp", addr)

def checkAllReplicas (s : Monitored) : Monitored :=
  { s with checks := s.checks ++ s.traced.pool.replicas.map fun addr => { addr } }

def markOf (addr : GoString) (answers : Bool) : Operation :=
  if answers then .markHealthy addr else .markUnhealthy addr

/-- One step, where `up` says which addresses answer; only the checks mark a replica. -/
inductive Monitors (up : GoString × GoString → Bool) (s : Monitored) : Monitored → Prop where
  | tick : Monitors up s (checkAllReplicas s)
  | dial (i : Nat) (addr : GoString) : s.checks[i]? = some ⟨addr, .dialing⟩ →
      Monitors up s { s with checks := s.checks.set i ⟨addr, .dialed (up (dialTarget addr))⟩ }
  | mark (i : Nat) (addr : GoString) (answers : Bool) (t : Traced) :
      s.checks[i]? = some ⟨addr, .dialed answers⟩ →
      step s.traced (markOf addr answers) = some t → Monitors up s ⟨t, s.checks.set i ⟨addr, .done⟩⟩
  | use (op : Operation) (t : Traced) : (∀ addr, op.mark addr = none) → step s.traced op = some t →
      Monitors up s { s with traced := t }

/-- Moreover no reload adds a replica. -/
def MonitorsKept (up : GoString × GoString → Bool) (s m : Monitored) : Prop :=
  Monitors up s m ∧ m.traced.pool.replicas ⊆ s.traced.pool.replicas

section

variable (up : GoString × GoString → Bool)

structure Truthful (s : Monitored) : Prop where
  consistent : Consistent s.traced
  dialed : ∀ c ∈ s.checks, ∀ answers, c.stage = .dialed answers → answers = up (dialTarget c.addr)

/-- The pool knows the health of the replica, or a check has still to mark it. -/
def Settling (s : Monitored) (addr : GoString) : Prop :=
  s.traced.pool.healthy addr = some (up (dialTarget addr)) ∨ ∃ c ∈ s.checks, c.addr = addr ∧
    c.stage ≠ .done

end

variable {up : GoString × GoString → Bool} {s m : Monitored} {t u : Traced} {op : Operation}
  {addr : GoString}

theorem consistent_step (consistent : Consistent t) (taken : step t op = some u) :
    Consistent u := by
  obtain ⟨v, same, next⟩ := consistent.step op
  obtain rfl := Option.some.inj (taken.symm.trans same)
  exact next

/-- An operation sets the health that it marks, and keeps that of every replica it leaves
in the list. -/
theorem healthy_step (consistent : Consistent t) (taken : step t op = some u)
    (before : addr ∈ t.pool.replicas) (listed : addr ∈ u.pool.replicas) :
      u.pool.healthy addr = (op.mark addr).or (t.pool.healthy addr) := by
  have after := (consistent_step consistent taken).health addr
  obtain ⟨p, -, rfl⟩ := Option.map_eq_some_iff.mp taken
  rw [if_pos listed, lastMark_cons, if_pos listed] at after
  rw [after, consistent.health addr, if_pos before]
  cases op.mark addr <;> rfl

theorem mark_markOf (marked : GoString) (answers : Bool) :
    (markOf marked answers).mark addr = if marked = addr then some answers else none := by
  cases answers <;> rfl

theorem consistent_monitors (consistent : Consistent s.traced) (taken : Monitors up s m) :
    Consistent m.traced := by
  cases taken with
  | tick | dial => exact consistent
  | mark i addr answers t found moved => exact consistent_step consistent moved
  | use op t other moved => exact consistent_step consistent moved

theorem truthful_step (truthful : Truthful up s) (taken : Monitors up s m) : Truthful up m := by
  refine ⟨consistent_monitors truthful.consistent taken, fun c mem given stage => ?_⟩
  cases taken with
  | tick =>
    rcases List.mem_append.mp mem with old | new
    · exact truthful.dialed c old given stage
    · obtain ⟨addr, -, rfl⟩ := List.mem_map.mp new
      cases stage
  | dial i addr found =>
    rcases List.mem_or_eq_of_mem_set mem with old | rfl
    · exact truthful.dialed c old given stage
    · cases stage
      rfl
  | mark i addr answers t found moved =>
    rcases List.mem_or_eq_of_mem_set mem with old | rfl
    · exact truthful.dialed c old given stage
    · cases stage
  | use op t other moved => exact truthful.dialed c mem given stage

theorem Settling.set {i : Nat} {c d : Check} (settling : Settling up s addr)
    (found : s.checks[i]? = some c) (healthy : t.pool.healthy addr = s.traced.pool.healthy addr)
    (own : c.addr = addr → d.addr = addr ∧ d.stage ≠ .done) :
      Settling up ⟨t, s.checks.set i d⟩ addr := by
  rcases settling with known | ⟨e, mem, same, pending⟩
  · exact .inl (healthy.trans known)
  · obtain ⟨j, place⟩ := List.mem_iff_getElem?.mp mem
    by_cases moved : i = j
    · subst moved
      obtain rfl := Option.some.inj (found.symm.trans place)
      exact .inr ⟨d, List.mem_set (List.getElem?_eq_some_iff.mp found).1 d, own same⟩
    · refine .inr ⟨e, List.mem_iff_getElem?.mpr ⟨j, ?_⟩, same, pending⟩
      rw [List.getElem?_set_ne moved, place]

/-- A mark that comes late is as true as the one it replaces. -/
theorem settling_step (truthful : Truthful up s)
    (settling : ∀ addr ∈ s.traced.pool.replicas, Settling up s addr) (taken : MonitorsKept up s m) :
      ∀ addr ∈ m.traced.pool.replicas, Settling up m addr := by
  intro addr listed
  have before := taken.2 listed
  cases taken.1 with
  | tick => exact (settling addr listed).imp_right fun ⟨c, mem, rest⟩ =>
    ⟨c, List.mem_append_left _ mem, rest⟩
  | dial i dialled found => exact (settling addr listed).set found rfl fun same => ⟨same, by simp⟩
  | mark i marked answers t found moved =>
    have healthy := healthy_step truthful.consistent moved before listed
    rw [mark_markOf] at healthy
    by_cases same : marked = addr
    · have told := truthful.dialed _ (List.mem_of_getElem? found) answers rfl
      rw [if_pos same, told, same] at healthy
      exact .inl healthy
    · rw [if_neg same] at healthy
      exact (settling addr before).set found healthy fun own => absurd own same
  | use op t other moved =>
    have healthy := healthy_step truthful.consistent moved before listed
    rw [other] at healthy
    exact (settling addr before).imp_left healthy.trans

theorem consistent_run (consistent : Consistent s.traced)
    (run : ReflTransGen (fun s m => ∃ up, Monitors up s m) s m) :
    Consistent m.traced := by
  induction run with
  | refl => exact consistent
  | tail _ taken ih =>
    obtain ⟨up, taken⟩ := taken
    exact consistent_monitors ih taken

theorem settling_run (truthful : Truthful up s)
    (settling : ∀ addr ∈ s.traced.pool.replicas, Settling up s addr)
    (run : ReflTransGen (MonitorsKept up) s m) :
    Truthful up m ∧ ∀ addr ∈ m.traced.pool.replicas, Settling up m addr := by
  induction run with
  | refl => exact ⟨truthful, settling⟩
  | tail _ taken ih => exact ⟨truthful_step ih.1 taken.1, settling_step ih.1 ih.2 taken⟩

/-- Whatever answered before a round, in which no older answer is still to be marked: once
its checks have ended and no replica has been added, the pool has every replica as it
answers now, and a query gets one that answers if there is one. -/
theorem health_checks_settle {primary : GoString} {replicas : List GoString}
    (before : ReflTransGen (fun s m => ∃ up, Monitors up s m)
      ⟨⟨newPool primary replicas, []⟩, []⟩ s)
    (marked : ∀ c ∈ s.checks, ∀ answers, c.stage ≠ .dialed answers)
    (after : ReflTransGen (MonitorsKept up) (checkAllReplicas s) m)
    (ended : ∀ c ∈ m.checks, c.stage = .done) :
    (∀ addr ∈ m.traced.pool.replicas, m.traced.pool.healthy addr = some (up (dialTarget addr))) ∧
      ∃ answer next, m.traced.pool.getReplica = some (answer, next) ∧
        ((∃ idx, m.traced.pool.replicas[idx]? = some answer.1 ∧ up (dialTarget answer.1) = true ∧
            answer.2 = Pool.replicaName idx) ∨
          (answer = (m.traced.pool.primary, lit "primary") ∧
            ∀ addr ∈ m.traced.pool.replicas, up (dialTarget addr) = false)) := by
  have start : Truthful up s := ⟨consistent_run (consistent_newPool primary replicas) before,
    fun c mem answers stage => absurd stage (marked c mem answers)⟩
  have started : ∀ addr ∈ s.traced.pool.replicas, Settling up (checkAllReplicas s) addr :=
    fun addr listed =>
    .inr ⟨{ addr }, List.mem_append_right _ (List.mem_map_of_mem listed), rfl, by simp⟩
  obtain ⟨truthful, settling⟩ := settling_run (truthful_step start .tick) started after
  have known :
      ∀ addr ∈ m.traced.pool.replicas, m.traced.pool.healthy addr = some (up (dialTarget addr)) :=
    fun addr listed => (settling addr listed).resolve_right fun ⟨c, mem, _, pending⟩ =>
      pending (ended c mem)
  obtain ⟨answer, next, given, answers, -⟩ := getReplica_answers truthful.consistent.indexed
  refine ⟨known, answer, next, given, ?_⟩
  rcases answers with ⟨idx, place, healthy, name⟩ | ⟨fallback, ill⟩
  · rw [known _ (List.mem_of_getElem? place)] at healthy
    exact .inl ⟨idx, place, Option.some.inj healthy, name⟩
  · refine .inr ⟨fallback, fun addr listed => ?_⟩
    simpa [known addr listed] using ill addr listed

/-- Two replicas, one on a socket where nothing answers. -/
def mixedPool : LivePool := newPool (lit "p:1") [lit "unix:/r", lit "s:2"]

def onlyTcp : GoString × GoString → Bool := fun target => target = (lit "tcp", lit "s:2")

/-- After a round of checks, of which the second has ended first. -/
def mixedChecked : Monitored where
  traced := ⟨(mixedPool.markHealthy (lit "s:2")).markUnhealthy (lit "unix:/r"),
    [(.markUnhealthy (lit "unix:/r"), [lit "unix:/r", lit "s:2"]),
      (.markHealthy (lit "s:2"), [lit "unix:/r", lit "s:2"])]⟩
  checks := [⟨lit "unix:/r", .done⟩, ⟨lit "s:2", .done⟩]

theorem mixed_checks :
    ReflTransGen (MonitorsKept onlyTcp) (checkAllReplicas ⟨⟨mixedPool, []⟩, []⟩) mixedChecked := by
  have socket : MonitorsKept onlyTcp (checkAllReplicas ⟨⟨mixedPool, []⟩, []⟩)
      ⟨⟨mixedPool, []⟩, [⟨lit "unix:/r", .dialed false⟩, ⟨lit "s:2", .dialing⟩]⟩ :=
    ⟨.dial 0 (lit "unix:/r") rfl, fun _ => id⟩
  have tcp : MonitorsKept onlyTcp
      ⟨⟨mixedPool, []⟩, [⟨lit "unix:/r", .dialed false⟩, ⟨lit "s:2", .dialing⟩]⟩
      ⟨⟨mixedPool, []⟩, [⟨lit "unix:/r", .dialed false⟩, ⟨lit "s:2", .dialed true⟩]⟩ :=
    ⟨.dial 1 (lit "s:2") rfl, fun _ => id⟩
  have healthy : MonitorsKept onlyTcp
      ⟨⟨mixedPool, []⟩, [⟨lit "unix:/r", .dialed false⟩, ⟨lit "s:2", .dialed true⟩]⟩
      ⟨⟨mixedPool.markHealthy (lit "s:2"),
        [(.markHealthy (lit "s:2"), [lit "unix:/r", lit "s:2"])]⟩,
        [⟨lit "unix:/r", .dialed false⟩, ⟨lit "s:2", .done⟩]⟩ :=
    ⟨.mark 1 (lit "s:2") true _ rfl rfl, fun _ => id⟩
  have unhealthy : MonitorsKept onlyTcp
      ⟨⟨mixedPool.markHealthy (lit "s:2"),
        [(.markHealthy (lit "s:2"), [lit "unix:/r", lit "s:2"])]⟩,
        [⟨lit "unix:/r", .dialed false⟩, ⟨lit "s:2", .done⟩]⟩ mixedChecked :=
    ⟨.mark 0 (lit "unix:/r") false _ rfl rfl, fun _ => id⟩
  exact .tail (.tail (.tail (.single socket) tcp) healthy) unhealthy

/-- The pool has the two as they answer, and a query gets the one that does. -/
theorem health_checks_settle_mixed :
    mixedChecked.traced.pool.healthy (lit "unix:/r") = some false ∧
      mixedChecked.traced.pool.healthy (lit "s:2") = some true ∧
      ∃ name next, mixedChecked.traced.pool.getReplica = some ((lit "s:2", name), next) := by
  obtain ⟨known, ⟨addr, name⟩, next, given, chosen⟩ :=
    health_checks_settle .refl (by simp) mixed_checks (by simp [mixedChecked])
  refine ⟨known _ (by decide), known _ (by decide), name, next, ?_⟩
  rcases chosen with ⟨idx, place, answers, -⟩ | ⟨-, none⟩
  · have listed : addr ∈ [lit "unix:/r", lit "s:2"] := List.mem_of_getElem? place
    have answers : onlyTcp (dialTarget addr) = true := answers
    rcases List.mem_pair.mp listed with rfl | rfl
    · exact absurd answers (by decide)
    · exact given
  · exact absurd (none (lit "s:2") (by decide)) (by decide)

end TQDBProxy.LivePool
