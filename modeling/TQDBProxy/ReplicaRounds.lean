import Mathlib.Data.List.Rotate
import TQDBProxy.ReplicaHealth

/-! Calls for a replica in a row. A call goes round the list from the current index to the
first healthy position and leaves the index behind it, so the healthy positions, taken in
the order of the lap, are rotated by one with every call. -/

namespace TQDBProxy.LivePool

open GuardedRuns

def lap (p : LivePool) : List Nat := (List.range p.replicas.length).rotate p.current

def healthyAt (p : LivePool) (idx : Nat) : Bool := p.replicas[idx]?.any p.isHealthy

def healthyPositions (p : LivePool) : List Nat := (List.range p.replicas.length).filter p.healthyAt

def order (p : LivePool) : List Nat := p.lap.filter p.healthyAt

def answerAt (p : LivePool) (idx : Nat) : GoString × GoString :=
  (p.replicas.getD idx [], Pool.replicaName idx)

def calls (p : LivePool) : Nat → Option (List (GoString × GoString))
  | 0 => some []
  | n + 1 =>
    match p.getReplica with
    | none => none
    | some (answer, next) => (calls { p with current := next } n).map (answer :: ·)

variable {p : LivePool} {current : Nat}

theorem tryReplicas_find (attempts : Nat) (bound : current < p.replicas.length) :
    p.tryReplicas attempts current =
      match ((List.range attempts).map fun j => (current + j) % p.replicas.length).find?
        p.healthyAt with
      | some idx => some (p.answerAt idx, (idx + 1) % p.replicas.length)
      | none => some ((p.primary, lit "primary"), (current + attempts) % p.replicas.length) := by
  induction attempts generalizing current with
  | zero => simp [tryReplicas, Nat.mod_eq_of_lt bound]
  | succ attempts ih =>
    have inRange : (current + 1) % p.replicas.length < p.replicas.length := Nat.mod_lt _ (by omega)
    have shifted : ∀ j, ((current + 1) % p.replicas.length + j) % p.replicas.length =
        (current + (j + 1)) % p.replicas.length := by
      intro j
      rw [Nat.mod_add_mod, Nat.add_assoc, Nat.add_comm 1 j]
    have first : (current + 0) % p.replicas.length = current := Nat.mod_eq_of_lt bound
    have here : p.healthyAt current = p.isHealthy p.replicas[current] := by
      simp [healthyAt, List.getElem?_eq_getElem bound]
    rw [tryReplicas, List.getElem?_eq_getElem bound, List.range_succ_eq_map, List.map_cons,
      List.map_map,
      first, List.find?_cons, here]
    dsimp only
    cases well : p.isHealthy p.replicas[current] with
    | true => simp [answerAt, List.getD_eq_getElem?_getD, List.getElem?_eq_getElem bound]
    | false =>
      simp only [Bool.false_eq_true, if_false]
      rw [ih inRange]
      simp only [shifted, Function.comp_def, Nat.succ_eq_add_one]

theorem lap_eq_map (p : LivePool) :
    p.lap = (List.range p.replicas.length).map fun j => (p.current + j) % p.replicas.length := by
  refine List.ext_getElem (by simp [lap]) fun j inLap inRange => ?_
  simp [lap, List.getElem_rotate, Nat.add_comm]

/-- A call answers with the first healthy position of the lap, and leaves the index behind
it; without one the index has gone once round. -/
theorem getReplica_find (indexed : Indexed p) :
    p.getReplica =
      match p.lap.find? p.healthyAt with
      | some idx => some (p.answerAt idx, (idx + 1) % p.replicas.length)
      | none => some ((p.primary, lit "primary"), p.current) := by
  rw [getReplica]
  rcases indexed with bound | ⟨none, -⟩
  · have listed : p.replicas ≠ [] := by
      intro empty
      simp [empty] at bound
    rw [if_neg listed, tryReplicas_find _ bound, lap_eq_map, Nat.add_mod_right,
      Nat.mod_eq_of_lt bound]
  · rw [if_pos none]
    simp [lap, none]

theorem order_isRotated (p : LivePool) : p.order ~r p.healthyPositions := by
  obtain ⟨front, back, whole, turned⟩ : ∃ front back, List.range p.replicas.length = front ++ back ∧
      p.lap = back ++ front := by
    rcases Nat.eq_zero_or_pos p.replicas.length with none | some
    · exact ⟨[], [], by simp [none], by simp [lap, none]⟩
    · have inRange : p.current % p.replicas.length ≤ (List.range p.replicas.length).length := by
        rw [List.length_range]
        exact Nat.le_of_lt (Nat.mod_lt _ some)
      refine ⟨_, _, (List.take_append_drop (p.current % p.replicas.length) _).symm, ?_⟩
      rw [lap, ← List.rotate_mod, List.length_range, List.rotate_eq_drop_append_take inRange]
  rw [order, healthyPositions, turned, whole, List.filter_append, List.filter_append]
  exact List.isRotated_append

theorem lap_moved {idx : Nat} {front back : List Nat} (split : p.lap = front ++ idx :: back) :
    ({ p with current := (idx + 1) % p.replicas.length } : LivePool).lap = back ++
    (front ++ [idx]) := by
  have found : p.lap[front.length]? = some idx := by simp [split]
  have inLap : front.length < p.lap.length := by simp [split]
  have size : p.lap.length = p.replicas.length := by simp [lap]
  have place : idx = (p.current + front.length) % p.replicas.length := by
    rw [lap_eq_map, List.getElem?_map, List.getElem?_range (by omega)] at found
    exact (Option.some.inj found).symm
  have turned : ({ p with current := (idx + 1) % p.replicas.length } : LivePool).lap =
      p.lap.rotate (front.length + 1) := by
    have same :
      ((List.range p.replicas.length).rotate ((idx + 1) % (List.range p.replicas.length).length)) =
        (List.range p.replicas.length).rotate (p.current + (front.length + 1)) := by
      rw [List.rotate_mod, ← List.rotate_mod _ (p.current + _), ← List.rotate_mod _ (idx + 1),
        List.length_range,
        place, Nat.mod_add_mod, Nat.add_assoc]
    rw [List.length_range] at same
    rw [lap, lap, List.rotate_rotate]
    exact same
  have cut :
    p.lap = (front ++ [idx]) ++ back := by rw [split, List.append_assoc, List.singleton_append]
  have length : (front ++ [idx]).length = front.length + 1 := by simp
  rw [turned, cut, ← length, List.rotate_append_length_eq]

theorem getReplica_order {idx : Nat} {rest : List Nat} (indexed : Indexed p)
    (next : p.order = idx :: rest) :
    ∃ q : LivePool, p.getReplica = some (p.answerAt idx, q.current) ∧
      q = { p with current := q.current } ∧
      Indexed q ∧ q.order = rest ++ [idx] := by
  obtain ⟨front, back, split, ill, well, others⟩ := List.filter_eq_cons_iff.mp next
  have found : p.lap.find? p.healthyAt = some idx := by
    rw [List.find?_eq_some_iff_append]
    exact ⟨well, front, back, split, fun a mem => by simpa using ill a mem⟩
  have some : 0 < p.replicas.length := by
    have size : p.lap.length = p.replicas.length := by simp [lap]
    rw [← size, split, List.length_append, List.length_cons]
    omega
  refine ⟨{ p with current := (idx + 1) % p.replicas.length }, ?_, rfl,
    .inl (Nat.mod_lt _ some), ?_⟩
  · rw [getReplica_find indexed, found]
  · have none : front.filter p.healthyAt = [] := by
      rw [List.filter_eq_nil_iff]
      exact ill
    have same : ({ p with current := (idx + 1) % p.replicas.length } : LivePool).healthyAt =
      p.healthyAt := rfl
    rw [order, lap_moved split, same, List.filter_append, List.filter_append, none, others]
    simp [well]

theorem calls_order {p : LivePool} (n : Nat) (indexed : Indexed p) (some : p.order ≠ []) :
    p.calls n =
      Option.some
        ((List.range n).map fun i => p.answerAt (p.order.getD (i % p.order.length) 0)) := by
  induction n generalizing p with
  | zero => rfl
  | succ n ih =>
    obtain ⟨idx, rest, next⟩ := List.exists_cons_of_ne_nil some
    obtain ⟨q, given, moved, indexed', turned⟩ := getReplica_order indexed next
    have later := ih indexed' (by simp [turned])
    have answers : q.answerAt = p.answerAt := by rw [moved]; rfl
    have shifted :
        ∀ i, q.order.getD (i % q.order.length) 0 = p.order.getD ((i + 1) % p.order.length) 0 := by
      intro i
      have same : q.order = p.order.rotate 1 := by simp [turned, next]
      have inRange : i % p.order.length < p.order.length := Nat.mod_lt _ (by simp [next])
      rw [same, List.length_rotate, List.getD_eq_getElem?_getD, List.getD_eq_getElem?_getD,
        List.getElem?_rotate inRange, Nat.mod_add_mod]
    rw [calls, given]
    dsimp only
    rw [← moved, later, answers, List.range_succ_eq_map, List.map_cons, List.map_map,
      Option.map_some, Nat.zero_mod]
    simp only [shifted, Function.comp_def, Nat.succ_eq_add_one]
    simp [next]

/-- From any state of a pool in use, calls in a row take every healthy position once, in the
order of the list, and then begin again. -/
theorem replicas_take_turns (primary : GoString) (replicas : List GoString) (ops : List Operation) :
    ∃ t, replay LivePool.step ⟨newPool primary replicas, []⟩ ops = some t ∧
      (1 ≤ t.pool.healthyPositions.length →
        ∃ order : List Nat, order ~r t.pool.healthyPositions ∧ order.Nodup ∧
          t.pool.calls t.pool.healthyPositions.length = some (order.map t.pool.answerAt) ∧
          t.pool.calls (t.pool.healthyPositions.length + 1) =
            some (order.map t.pool.answerAt ++ [t.pool.answerAt (order.getD 0 0)])) ∧
      (t.pool.healthyPositions = [] →
        t.pool.getReplica = some ((t.pool.primary, lit "primary"), t.pool.current) ∧
          operate t.pool .getReplica = some t.pool) := by
  obtain ⟨t, ran, consistent⟩ := consistent_replay (consistent_newPool primary replicas) ops
  refine ⟨t, ran, fun some => ?_, fun none => ?_⟩
  · have rotated := t.pool.order_isRotated
    have size : t.pool.order.length = t.pool.healthyPositions.length := rotated.perm.length_eq
    have present : t.pool.order ≠ [] := by
      intro empty
      simp [empty] at size
      omega
    have round : (List.range t.pool.order.length).map (fun i =>
        t.pool.answerAt (t.pool.order.getD (i % t.pool.order.length) 0)) =
          t.pool.order.map t.pool.answerAt := by
      refine List.ext_getElem (by simp) fun i inRange inOrder => ?_
      have less : i < t.pool.order.length := by simpa using inOrder
      simp [Nat.mod_eq_of_lt less, less]
    refine ⟨t.pool.order, rotated, ?_, ?_, ?_⟩
    · rw [rotated.perm.nodup_iff]
      exact List.nodup_range.filter _
    · rw [← size, calls_order _ consistent.indexed present, round]
    · rw [← size, calls_order _ consistent.indexed present, List.range_succ, List.map_append, round]
      simp
  · have empty : t.pool.order = [] := by
      have rotated := t.pool.order_isRotated
      rw [none] at rotated
      exact List.isRotated_nil_iff.mp rotated
    have nowhere : t.pool.lap.find? t.pool.healthyAt = Option.none := by
      rw [List.find?_eq_none]
      exact List.filter_eq_nil_iff.mp empty
    have given := getReplica_find consistent.indexed
    rw [nowhere] at given
    exact ⟨given, by rw [operate, given]; rfl⟩

end TQDBProxy.LivePool
