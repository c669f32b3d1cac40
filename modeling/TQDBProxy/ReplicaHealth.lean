import Mathlib.Logic.Function.Basic
import TQDBProxy.GuardedRuns
import TQDBProxy.ReplicaPool

/-! A pool of replicas while it is in use. Each operation holds the pool's lock from its
first read to its last write, so an operation is one step. The map of health is a partial
function, whose keys are the addresses that it knows. -/

namespace TQDBProxy

open GuardedRuns

structure LivePool where
  primary : GoString
  replicas : List GoString
  healthy : GoString → Option Bool
  current : Nat

namespace LivePool

def healthOf (status : GoString → Bool) (replicas : List GoString) : GoString → Option Bool :=
  replicas.foldl (fun healthy r => Function.update healthy r (some (status r))) fun _ => none

def newPool (primary : GoString) (replicas : List GoString) : LivePool where
  primary := primary
  replicas := replicas
  healthy := healthOf (fun _ => true) replicas
  current := 0

def updateReplicas (p : LivePool) (primary : GoString) (replicas : List GoString) : LivePool where
  primary := primary
  replicas := replicas
  healthy := healthOf (fun r => (p.healthy r).getD true) replicas
  current := if 0 < replicas.length then p.current % replicas.length else 0

def mark (p : LivePool) (addr : GoString) (status : Bool) : LivePool :=
  match p.healthy addr with
  | some _ => { p with healthy := Function.update p.healthy addr (some status) }
  | none => p

def markUnhealthy (p : LivePool) (addr : GoString) : LivePool := p.mark addr false

def markHealthy (p : LivePool) (addr : GoString) : LivePool := p.mark addr true

def isHealthy (p : LivePool) (addr : GoString) : Bool := (p.healthy addr).getD false

def tryReplicas (p : LivePool) : Nat → Nat → Option ((GoString × GoString) × Nat)
  | 0, current => some ((p.primary, lit "primary"), current)
  | attempts + 1, current =>
    match p.replicas[current]? with
    | none => none
    | some replica =>
      let next := (current + 1) % p.replicas.length
      if p.isHealthy replica then some ((replica, Pool.replicaName current), next)
      else tryReplicas p attempts next

def getReplica (p : LivePool) : Option ((GoString × GoString) × Nat) :=
  if p.replicas = [] then some ((p.primary, lit "primary"), p.current)
  else p.tryReplicas p.replicas.length p.current

inductive Operation where
  | updateReplicas (primary : GoString) (replicas : List GoString)
  | markUnhealthy (addr : GoString)
  | markHealthy (addr : GoString)
  | getReplica
  deriving DecidableEq

/-- A pool with the operations on it so far, newest first, each with the list of
replicas after it. -/
structure Traced where
  pool : LivePool
  history : List (Operation × List GoString) := []

def operate (p : LivePool) : Operation → Option LivePool
  | .updateReplicas primary replicas => some (p.updateReplicas primary replicas)
  | .markUnhealthy addr => some (p.markUnhealthy addr)
  | .markHealthy addr => some (p.markHealthy addr)
  | .getReplica => p.getReplica.map fun (_, next) => { p with current := next }

def step (t : Traced) (op : Operation) : Option Traced :=
  (operate t.pool op).map fun p => ⟨p, (op, p.replicas) :: t.history⟩

def Operation.mark (addr : GoString) : Operation → Option Bool
  | .markUnhealthy a => if a = addr then some false else none
  | .markHealthy a => if a = addr then some true else none
  | _ => none

/-- The last mark of an address since it was last absent from the list. -/
def lastMark (addr : GoString) (history : List (Operation × List GoString)) : Option Bool :=
  (history.takeWhile fun e => e.2.contains addr).findSome? fun e => e.1.mark addr

variable {p q : LivePool} {t u : Traced} {op : Operation} {addr : GoString} {current : Nat}

theorem healthOf_apply (status : GoString → Bool) (replicas : List GoString) (addr : GoString) :
    healthOf status replicas addr = if addr ∈ replicas then some (status addr) else none := by
  have filled : ∀ healthy : GoString → Option Bool,
      replicas.foldl (fun healthy r => Function.update healthy r (some (status r))) healthy addr =
        if addr ∈ replicas then some (status addr) else healthy addr := by
    induction replicas with
    | nil => simp
    | cons r rest ih =>
      intro healthy
      rw [List.foldl_cons, ih]
      by_cases same : addr = r
      · subst same
        simp
      · simp [same]
  exact filled _

/-- What an answer has to be: a healthy replica under its own name, or the primary if
no replica is healthy. -/
def Answers (p : LivePool) (answer : GoString × GoString) : Prop :=
  (∃ idx, p.replicas[idx]? = some answer.1 ∧ p.healthy answer.1 = some true ∧
    answer.2 = Pool.replicaName idx) ∨
  (answer = (p.primary, lit "primary") ∧ ∀ addr ∈ p.replicas, p.healthy addr ≠ some true)

theorem isHealthy_iff : p.isHealthy addr = true ↔ p.healthy addr = some true := by
  unfold isHealthy
  rcases p.healthy addr with _ | _ | _ <;> simp

theorem tryReplicas_round (attempts : Nat) (bound : current < p.replicas.length) :
    ∃ answer next, p.tryReplicas attempts current = some (answer, next) ∧ next < p.replicas.length ∧
      ((∃ idx, p.replicas[idx]? = some answer.1 ∧ p.healthy answer.1 = some true ∧
          answer.2 = Pool.replicaName idx) ∨
        (answer = (p.primary, lit "primary") ∧ ∀ j < attempts, ∀ addr,
          p.replicas[(current + j) % p.replicas.length]? = some addr →
            p.healthy addr ≠ some true)) := by
  induction attempts generalizing current with
  | zero => exact ⟨_, current, rfl, bound, .inr ⟨rfl, by simp⟩⟩
  | succ attempts ih =>
    have inRange : (current + 1) % p.replicas.length < p.replicas.length := Nat.mod_lt _ (by omega)
    rw [tryReplicas, List.getElem?_eq_getElem bound]
    dsimp only
    by_cases well : p.isHealthy p.replicas[current] = true
    · rw [if_pos well]
      refine ⟨_, _, rfl, inRange, .inl ⟨current, List.getElem?_eq_getElem bound, ?_, rfl⟩⟩
      exact isHealthy_iff.mp well
    · rw [if_neg well]
      obtain ⟨answer, next, ran, valid, found | ⟨fallback, ill⟩⟩ := ih inRange
      · exact ⟨answer, next, ran, valid, .inl found⟩
      · refine ⟨answer, next, ran, valid, .inr ⟨fallback, ?_⟩⟩
        intro j less addr listed
        rcases j with _ | j
        · rw [Nat.add_zero, Nat.mod_eq_of_lt bound, List.getElem?_eq_getElem bound] at listed
          obtain rfl := Option.some.inj listed
          exact fun healthy => well (isHealthy_iff.mpr healthy)
        · refine ill j (by omega) addr ?_
          rw [Nat.mod_add_mod, Nat.add_assoc, Nat.add_comm 1 j]
          exact listed

theorem round_reaches {n current idx : Nat} (bound : current < n) (inRange : idx < n) :
    ∃ j < n, (current + j) % n = idx := by
  rcases Nat.lt_or_ge idx current with before | after
  · refine ⟨n - current + idx, by omega, ?_⟩
    rw [← Nat.add_assoc, Nat.add_sub_cancel' (Nat.le_of_lt bound), Nat.add_mod_left,
      Nat.mod_eq_of_lt inRange]
  · exact ⟨idx - current, by omega, by rw [Nat.add_sub_cancel' after, Nat.mod_eq_of_lt inRange]⟩

def Indexed (p : LivePool) : Prop :=
  p.current < p.replicas.length ∨ (p.replicas = [] ∧ p.current = 0)

theorem getReplica_answers (indexed : Indexed p) :
    ∃ answer next, p.getReplica = some (answer, next) ∧ Answers p answer ∧
      Indexed { p with current := next } := by
  unfold getReplica
  rcases indexed with bound | ⟨none, zero⟩
  · have listed : p.replicas ≠ [] := by
      intro empty
      simp [empty] at bound
    obtain ⟨answer, next, ran, valid, found | ⟨fallback, ill⟩⟩ :=
      tryReplicas_round p.replicas.length bound
    · exact ⟨answer, next, by rw [if_neg listed, ran], .inl found, .inl valid⟩
    · refine ⟨answer, next, by rw [if_neg listed, ran], .inr ⟨fallback, ?_⟩, .inl valid⟩
      intro addr mem
      obtain ⟨idx, inRange, rfl⟩ := List.mem_iff_getElem.mp mem
      obtain ⟨j, less, reached⟩ := round_reaches bound inRange
      exact ill j less _ (by rw [reached, List.getElem?_eq_getElem inRange])
  · exact ⟨(p.primary, lit "primary"), p.current, by rw [if_pos none], .inr ⟨rfl, by simp [none]⟩,
      .inr ⟨none, zero⟩⟩

theorem lastMark_cons (replicas : List GoString) (history : List (Operation × List GoString)) :
    lastMark addr ((op, replicas) :: history) =
      if addr ∈ replicas then (op.mark addr).or (lastMark addr history) else none := by
  unfold lastMark
  by_cases listed : addr ∈ replicas
  · rw [List.takeWhile_cons_of_pos (by simpa using listed), List.findSome?_cons, if_pos listed]
    cases op.mark addr <;> rfl
  · rw [List.takeWhile_cons_of_neg (by simpa using listed), if_neg listed]
    rfl

structure Consistent (t : Traced) : Prop where
  indexed : Indexed t.pool
  newest : ∀ e ∈ t.history.head?, e.2 = t.pool.replicas
  health : ∀ addr, t.pool.healthy addr =
    if addr ∈ t.pool.replicas then some ((lastMark addr t.history).getD true) else none

theorem consistent_newPool (primary : GoString) (replicas : List GoString) :
    Consistent ⟨newPool primary replicas, []⟩ where
  indexed := by
    cases replicas with
    | nil => exact .inr ⟨rfl, rfl⟩
    | cons r rest => exact .inl (by simp [newPool])
  newest := by simp
  health addr := healthOf_apply (fun _ => true) replicas addr

theorem Consistent.lastMark_absent (consistent : Consistent t) (absent : addr ∉ t.pool.replicas) :
    lastMark addr t.history = none := by
  cases written : t.history with
  | nil => rfl
  | cons e earlier =>
    have same : e.2 = t.pool.replicas := consistent.newest e (by simp [written])
    obtain ⟨op, replicas⟩ := e
    rw [lastMark_cons, if_neg (by rw [show replicas = _ from same]; exact absent)]

theorem Consistent.updateReplicas (consistent : Consistent t) (primary : GoString)
    (replicas : List GoString) :
    Consistent ⟨t.pool.updateReplicas primary replicas,
      (.updateReplicas primary replicas, replicas) :: t.history⟩ where
  indexed := by
    rcases Nat.eq_zero_or_pos replicas.length with none | some
    · exact .inr ⟨List.length_eq_zero_iff.mp none, if_neg (by omega)⟩
    · left
      simp only [LivePool.updateReplicas, if_pos some]
      exact Nat.mod_lt _ some
  newest := by simp [LivePool.updateReplicas]
  health addr := by
    rw [lastMark_cons]
    simp only [LivePool.updateReplicas, healthOf_apply, Operation.mark, Option.none_or]
    split_ifs with listed
    · rw [consistent.health addr]
      split_ifs with before
      · rfl
      · rw [consistent.lastMark_absent before]
    · rfl

theorem Consistent.mark (consistent : Consistent t) (marked : GoString) (status : Bool)
    (sets : ∀ addr, op.mark addr = if marked = addr then some status else none) :
    Consistent ⟨t.pool.mark marked status, (op, (t.pool.mark marked status).replicas) ::
      t.history⟩ := by
  have known := consistent.health marked
  unfold LivePool.mark
  split_ifs at known with listed
  · rw [known]
    refine ⟨consistent.indexed, by simp, fun addr => ?_⟩
    rw [lastMark_cons, sets]
    by_cases same : marked = addr
    · subst same
      simp [listed]
    · simp only [Function.update_of_ne (Ne.symm same), consistent.health addr, if_neg same,
        Option.none_or]
      split_ifs <;> rfl
  · rw [known]
    refine ⟨consistent.indexed, by simp, fun addr => ?_⟩
    rw [lastMark_cons, sets, consistent.health addr]
    by_cases same : marked = addr
    · subst same
      simp [listed]
    · simp only [if_neg same, Option.none_or]
      split_ifs <;> rfl

theorem Consistent.moved (consistent : Consistent t) {next : Nat}
    (indexed : Indexed { t.pool with current := next }) :
    Consistent ⟨{ t.pool with current := next }, (.getReplica, t.pool.replicas) :: t.history⟩ := by
  refine ⟨indexed, by simp, fun addr => ?_⟩
  rw [lastMark_cons]
  simp only [Operation.mark, Option.none_or, consistent.health addr]
  split_ifs <;> rfl

theorem Consistent.step (consistent : Consistent t) (op : Operation) :
    ∃ u, LivePool.step t op = some u ∧ Consistent u := by
  cases op with
  | updateReplicas primary replicas => exact ⟨_, rfl, consistent.updateReplicas primary replicas⟩
  | markUnhealthy addr => exact ⟨_, rfl, consistent.mark addr false fun _ => rfl⟩
  | markHealthy addr => exact ⟨_, rfl, consistent.mark addr true fun _ => rfl⟩
  | getReplica =>
    obtain ⟨answer, next, given, -, indexed⟩ := getReplica_answers consistent.indexed
    refine ⟨_, ?_, consistent.moved indexed⟩
    simp [LivePool.step, operate, given]

theorem consistent_replay (consistent : Consistent t) (ops : List Operation) :
    ∃ u, replay LivePool.step t ops = some u ∧ Consistent u := by
  induction ops generalizing t with
  | nil => exact ⟨t, rfl, consistent⟩
  | cons op rest ih =>
    obtain ⟨u, taken, consistent⟩ := consistent.step op
    obtain ⟨v, ran, consistent⟩ := ih consistent
    exact ⟨v, by rw [replay, taken, Option.bind_some, ran], consistent⟩

/-- The state of a pool after any operations on it, and what it answers then. -/
theorem replica_pool_consistent (primary : GoString) (replicas : List GoString)
    (ops : List Operation) :
    ∃ t, replay LivePool.step ⟨newPool primary replicas, []⟩ ops = some t ∧
      (t.pool.current < t.pool.replicas.length ∨ (t.pool.replicas = [] ∧ t.pool.current = 0)) ∧
      (∀ addr, (t.pool.healthy addr).isSome = true ↔ addr ∈ t.pool.replicas) ∧
      (∀ addr ∈ t.pool.replicas, t.pool.healthy addr = some ((lastMark addr t.history).getD true)) ∧
      ∃ answer next, t.pool.getReplica = some (answer, next) ∧
        ((∃ idx, t.pool.replicas[idx]? = some answer.1 ∧ t.pool.healthy answer.1 = some true ∧
            answer.2 = Pool.replicaName idx) ∨
          (answer = (t.pool.primary, lit "primary") ∧
            ∀ addr ∈ t.pool.replicas, t.pool.healthy addr ≠ some true)) := by
  obtain ⟨t, ran, consistent⟩ := consistent_replay (consistent_newPool primary replicas) ops
  obtain ⟨answer, next, given, answers, -⟩ := getReplica_answers consistent.indexed
  refine ⟨t, ran, consistent.indexed, fun addr => ?_, fun addr listed => ?_, answer, next, given,
    answers⟩
  · rw [consistent.health addr]
    split_ifs with listed <;> simp [listed]
  · rw [consistent.health addr, if_pos listed]

/-- The sessions choose a replica by the same rule, from the index and the health that
the pool has at that moment. -/
theorem getReplica_eq_pool (primary : GoString) (replicas : List GoString) (ops : List Operation) :
    ∃ t, replay LivePool.step ⟨newPool primary replicas, []⟩ ops = some t ∧ t.pool.getReplica =
      some
        (Pool.getReplica ⟨t.pool.primary, t.pool.replicas⟩ ⟨t.pool.current, t.pool.isHealthy⟩) := by
  obtain ⟨t, ran, consistent⟩ := consistent_replay (consistent_newPool primary replicas) ops
  refine ⟨t, ran, ?_⟩
  have indexed := consistent.indexed
  generalize t.pool = p at indexed
  have rounds : ∀ attempts current, current < p.replicas.length → p.tryReplicas attempts current =
      some (Pool.tryReplicas ⟨p.primary, p.replicas⟩ p.isHealthy attempts current) := by
    intro attempts
    induction attempts with
    | zero => exact fun _ _ => rfl
    | succ attempts ih =>
      intro current bound
      rw [tryReplicas, Pool.tryReplicas, List.getD_eq_getElem?_getD, List.getElem?_eq_getElem bound]
      dsimp only [Option.getD_some]
      split_ifs
      · rfl
      · exact ih _ (Nat.mod_lt _ (by omega))
  unfold getReplica Pool.getReplica
  split_ifs with none
  · rfl
  · rcases indexed with bound | ⟨empty, -⟩
    · exact rounds _ _ bound
    · exact absurd empty none

end LivePool

end TQDBProxy
