import TQDBProxy.BatchDatabases
import TQDBProxy.InsertClauses
import TQDBProxy.WriteBatchExecutor

/-! The parameters of the requests that end up in a batched DELETE. The batch is chosen by
the one question mark after WHERE, whatever it stands in, and the parameters come with
the prepared executions only. -/

namespace TQDBProxy

open GuardedRuns TQDBProxy.Parser

/-! What a step hands over -/

namespace MariaDB

variable {cfg : ProxyConfig} {w : World} {s t : Session}

def Carried : Input → GoString → List Value → Prop
  | .nextStatement, _, params => params = []
  | .stmtExecute data, query, params => decodeStmtParams data query = .ok params
  | _, _, _ => False

def carrying (input : Input) : Limits where
  stays := False
  silent := False
  emits e := ∀ db key query params batchMs, e = .enqueued db key query params batchMs →
    Carried input query params
  plain := by
    rintro _ plain _ _ _ _ _ rfl
    cases plain

theorem carrying_of_ne {input : Input} {e : Event}
    (other : ∀ db key query params batchMs, e ≠ .enqueued db key query params batchMs) :
    (carrying input).emits e :=
  fun db key query params batchMs eq => absurd eq (other db key query params batchMs)

theorem carried_nextStatement {query : GoString} {rest : List GoString} :
    ∀ e ∈ (nextStatement cfg w query rest s).events,
      e ∈ s.events ∨ (carrying .nextStatement).emits e := by
  have handled :
    ∀ e ∈ (handleSingleQuery cfg w query s.original { s with pending := rest }).2.events,
      e ∈ s.events ∨ (carrying .nextStatement).emits e := by
    refine emitted_handleSingleQuery (L := carrying .nextStatement) id id rfl ?_ ?_ ?_ ?_
    · exact fun _ _ => carrying_of_ne (by simp)
    · rintro _ _ _ _ _ _ _ ⟨⟩
      rfl
    · exact fun _ _ _ => carrying_of_ne (by simp)
    · exact fun _ => ⟨carrying_of_ne (by simp), carrying_of_ne (by simp)⟩
  unfold nextStatement
  split <;> rename_i made <;> rw [made] at handled <;> exact handled

theorem carried_dispatch {input : Input} :
    ∀ e ∈ (dispatch cfg w input s).2.events, e ∈ s.events ∨ (carrying input).emits e := by
  cases input with
  | initDB dbName =>
    exact (moves_handleUse (L := carrying (.initDB dbName)) False.elim False.elim
      False.elim).emitted
  | stmtPrepare query =>
    exact (moves_handlePrepare (L := carrying (.stmtPrepare query)) False.elim).emitted
  | stmtExecute data =>
    refine (moves_handleExecute (L := carrying (.stmtExecute data)) False.elim False.elim
      False.elim ?_ ?_ ?_ ?_).emitted
    · exact fun _ _ => carrying_of_ne (by simp)
    · rintro _ _ parsed params _ decoded _ _ _ _ _ ⟨⟩
      exact decoded
    · exact fun _ _ _ => carrying_of_ne (by simp)
    · exact fun _ _ => ⟨carrying_of_ne (by simp), carrying_of_ne (by simp)⟩
  | stmtClose data =>
    exact (moves_handleStmtClose (L := carrying (.stmtClose data)) False.elim).emitted
  | stmtReset data =>
    exact (moves_handleStmtReset (L := carrying (.stmtReset data)) False.elim).emitted
  | quit | fieldList | ping | query | nextStatement | other => exact fun _ mem => .inl mem

theorem step_carried {a : Input × World} (taken : step cfg s a = some t) (silent : s.events = [])
    {db key query : GoString} {params : List Value} {batchMs : Nat}
    (logged : .enqueued db key query params batchMs ∈ t.events) : Carried a.1 query params := by
  have explained : ∀ e ∈ t.events, e ∈ s.events ∨ (carrying a.1).emits e := by
    rcases step_cases taken with ⟨query, rest, waiting, next, rfl⟩ | ⟨text, rfl⟩ | rfl
    · rw [next]
      exact carried_nextStatement
    · exact fun _ mem => .inl mem
    · exact carried_dispatch
  rcases explained _ logged with old | new
  · rw [silent] at old
    cases old
  · exact new db key query params batchMs rfl

end MariaDB

namespace Postgres

variable {w : World} {s t : Session}

def Carried : Message → List Value → Prop
  | .query _, params => params = []
  | .execute _, _ => True
  | _, _ => False

def carrying (message : Message) : Limits where
  silent := False
  emits e := ∀ db key query params batchMs, e = .enqueued db key query params batchMs →
    Carried message params
  plain := by
    rintro _ plain _ _ _ _ _ rfl
    cases plain

theorem carrying_of_ne {message : Message} {e : Event}
    (other : ∀ db key query params batchMs, e ≠ .enqueued db key query params batchMs) :
    (carrying message).emits e :=
  fun db key query params batchMs eq => absurd eq (other db key query params batchMs)

theorem carried_handleQuery {payload : List UInt8} :
    ∀ e ∈ (handleQuery w payload s).2.events, e ∈ s.events ∨
      (carrying (.query payload)).emits e := by
  unfold handleQuery
  dsimp only
  split
  · exact fun _ mem => .inl mem
  · rw [← (trackTransaction_rest (queryText payload) s).2.2]
    refine (moves_handleText (L := carrying (.query payload)) False.elim ?_ ?_ ?_ ?_).emitted
    · exact fun _ _ => carrying_of_ne (by simp)
    · rintro _ _ _ _ _ _ _ ⟨⟩
      rfl
    · exact fun _ => carrying_of_ne (by simp)
    · exact fun _ => ⟨carrying_of_ne (by simp), carrying_of_ne (by simp)⟩

theorem step_carried {a : Message × World} (taken : step s a = some t) (silent : s.events = [])
    {db key query : GoString} {params : List Value} {batchMs : Nat}
    (logged : .enqueued db key query params batchMs ∈ t.events) : Carried a.1 params := by
  have explained : ∀ e ∈ t.events, e ∈ s.events ∨ (carrying a.1).emits e := by
    unfold step at taken
    split at taken
    · cases taken
    · cases taken
      obtain ⟨message, w⟩ := a
      cases message with
      | query payload => exact carried_handleQuery
      | execute payload => exact fun _ _ => .inr fun _ _ _ _ _ _ => trivial
      | parse payload => exact (moves_handleParse (L := carrying (.parse payload))).emitted
      | bind payload => exact (moves_handleBind (L := carrying (.bind payload))).emitted
      | close payload => exact (moves_handleClose (L := carrying (.close payload))).emitted
      | describe | sync | terminate | other => exact fun _ mem => .inl mem
  rcases explained _ logged with old | new
  · rw [silent] at old
    cases old
  · exact new db key query params batchMs rfl

end Postgres

/-! The requests of the manager -/

inductive Source where
  | mariadbText
  | mariadbExecute
  | postgresText
  | postgresExecute
  deriving DecidableEq

def Proxy.Enqueues (p : Proxy) (made : p.Input → Prop) (query : GoString) (params : List Value) :
    Prop :=
  ∃ s a t db key batchMs, p.events s = [] ∧ p.step s a = some t ∧ made a ∧
    .enqueued db key query params batchMs ∈ p.events t

def Source.Enqueues (source : Source) (query : GoString) (params : List Value) : Prop :=
  match source with
  | .mariadbText => ∃ cfg, (MariaDB.proxy cfg).Enqueues (·.1 = .nextStatement) query params
  | .mariadbExecute =>
    ∃ cfg, (MariaDB.proxy cfg).Enqueues (fun a => ∃ data, a.1 = .stmtExecute data) query params
  | .postgresText =>
    ∃ cfg, (Postgres.proxy cfg).Enqueues (fun a => ∃ payload, a.1 = .query payload) query params
  | .postgresExecute =>
    ∃ cfg, (Postgres.proxy cfg).Enqueues (fun a => ∃ payload, a.1 = .execute payload) query params

structure Handed where
  source : Source
  query : GoString
  params : List Value
  enqueued : source.Enqueues query params

def Handed.carriesValue (h : Handed) : Bool :=
  match h.source with
  | .mariadbText | .postgresText => false
  | .mariadbExecute => true
  | .postgresExecute => !h.params.isEmpty

section Params

variable {query : GoString} {params : List Value}

theorem Source.Enqueues.mariadbText (enqueued : Source.mariadbText.Enqueues query params) :
    params = [] := by
  obtain ⟨cfg, s, ⟨input, w⟩, t, db, key, batchMs, silent, stepped, rfl, logged⟩ := enqueued
  exact MariaDB.step_carried stepped silent logged

theorem Source.Enqueues.postgresText (enqueued : Source.postgresText.Enqueues query params) :
    params = [] := by
  obtain ⟨cfg, s, ⟨message, w⟩, t, db, key, batchMs, silent, stepped, ⟨payload, rfl⟩, logged⟩ :=
    enqueued
  exact Postgres.step_carried stepped silent logged

theorem Source.Enqueues.mariadbExecute (enqueued : Source.mariadbExecute.Enqueues query params) :
    params.length = Strings.count query 63 := by
  obtain ⟨cfg, s, ⟨input, w⟩, t, db, key, batchMs, silent, stepped, ⟨data, rfl⟩, logged⟩ := enqueued
  have decoded : MariaDB.decodeStmtParams data query = .ok params :=
    MariaDB.step_carried stepped silent logged
  exact MariaDB.decodeStmtParams_length decoded

end Params

namespace WriteBatch

def choosesDelete (b : Batch) : Bool :=
  allSame b && !(!b.first.hasReturning && isBatchableInsert b.first.query) &&
    isBatchableDelete b.first.query == some true

theorem count_drop_le (s : GoString) (n : Nat) (b : UInt8) :
    Strings.count (s.drop n) b ≤ Strings.count s b :=
  (List.drop_sublist n s).count_le b

theorem count_skipComments_le (fuel : Nat) (q : GoString) (b : UInt8) :
    Strings.count (skipComments fuel q) b ≤ Strings.count q b := by
  obtain ⟨⟨y, w, eq, -⟩, -⟩ := skipComments_split fuel q
  have total := congrArg (Strings.count · b) eq
  simp only [Strings.count, List.count_append] at total ⊢
  omega

theorem isBatchableDelete_marked {query : GoString}
    (batchable : isBatchableDelete query = some true) :
    1 ≤ Strings.count query 63 := by
  unfold isBatchableDelete at batchable
  dsimp only at batchable
  split at batchable
  · cases batchable
  split at batchable
  · cases batchable
  rename_i whereIdx _
  obtain ⟨whereClause, sliced, tests⟩ := Option.map_eq_some_iff.mp batchable
  simp only [Bool.and_eq_true, beq_iff_eq] at tests
  unfold Strings.sliceFrom at sliced
  split at sliced
  · cases sliced
    calc 1 = Strings.count ((skipComments query.length query).drop (whereIdx + 7)) 63 :=
      tests.2.symm
      _ ≤ Strings.count (skipComments query.length query) 63 := count_drop_le ..
      _ ≤ Strings.count query 63 := count_skipComments_le ..
  · cases sliced

theorem carriesValue_iff {h : Handed} (batchable : isBatchableDelete h.query = some true) :
    1 ≤ h.params.length ↔ h.carriesValue = true := by
  obtain ⟨source, query, params, enqueued⟩ := h
  cases source with
  | mariadbText => simp [Handed.carriesValue, enqueued.mariadbText]
  | postgresText => simp [Handed.carriesValue, enqueued.postgresText]
  | mariadbExecute =>
    simpa [Handed.carriesValue, enqueued.mariadbExecute] using isBatchableDelete_marked batchable
  | postgresExecute => cases params <;> simp [Handed.carriesValue]

theorem reads_iff (b : Batch) :
    (b.paramLists.mapM List.head?).isSome = true ↔ ∀ r ∈ b.requests, 1 ≤ r.params.length := by
  have reads : ∀ lists : List (List Value), (lists.mapM List.head?).isSome = true ↔
      ∀ params ∈ lists, 1 ≤ params.length := by
    intro lists
    induction lists with
    | nil => simp
    | cons params lists ih =>
      cases params with
      | nil => simp
      | cons value params =>
        rw [List.mapM_cons, List.forall_mem_cons, ← ih]
        cases lists.mapM List.head? <;> simp
  rw [reads, Batch.paramLists, List.forall_mem_map]

/-- In a batch that is deleted at once, every request has the parameter that is
read exactly when every request carries a value. -/
theorem delete_params_iff (handed : List Handed) (b : Batch)
    (same : b.requests.map (fun r => (r.query, r.params)) = handed.map fun h => (h.query, h.params))
    (chosen : choosesDelete b = true) :
    ((∀ r ∈ b.requests, 1 ≤ r.params.length) ∧ (b.paramLists.mapM List.head?).isSome = true) ↔
      ∀ h ∈ handed, h.carriesValue = true := by
  rw [reads_iff, and_self]
  simp only [choosesDelete, Bool.and_eq_true, beq_iff_eq] at chosen
  have one : ∀ h ∈ handed, h.query = b.first.query := by
    intro h mem
    have pair : (h.query, h.params) ∈ b.requests.map fun r => (r.query, r.params) :=
      same ▸ List.mem_map_of_mem mem
    obtain ⟨r, mem', eq⟩ := List.mem_map.mp pair
    obtain ⟨query, -⟩ := Prod.mk.inj eq
    rw [← query]
    simpa using List.all_eq_true.mp chosen.1.1 r mem'
  calc (∀ r ∈ b.requests, 1 ≤ r.params.length)
      ↔ ∀ p ∈ b.requests.map (fun r => (r.query, r.params)), 1 ≤ p.2.length := by simp
    _ ↔ ∀ h ∈ handed, 1 ≤ h.params.length := by rw [same]; simp
    _ ↔ ∀ h ∈ handed, h.carriesValue = true :=
      forall₂_congr fun h mem => carriesValue_iff (one h mem ▸ chosen.2)

end WriteBatch

/-! Runs -/

def Event.hands (query : GoString) (params : List Value) : Event → Bool
  | .enqueued _ _ query' params' _ => query' == query && params' == params
  | _ => false

def Proxy.handing (p : Proxy) (hello : p.Hello) (inputs : List p.Input) (a : p.Input)
    (query : GoString) (params : List Value) : Bool :=
  ((p.handleConnection hello).bind fun s => replay p.step s inputs).any fun s =>
    (p.events (p.forget s)).isEmpty &&
      (p.step (p.forget s) a).any fun t => (p.events t).any (·.hands query params)

theorem Proxy.enqueues_of_handing {p : Proxy} (hello : p.Hello) (inputs : List p.Input)
    (a : p.Input) {made : p.Input → Prop} {query : GoString} {params : List Value}
    (source : made a) (handing : p.handing hello inputs a query params = true) :
    p.Enqueues made query params := by
  simp only [Proxy.handing, Option.any_eq_true, Bool.and_eq_true, List.isEmpty_iff,
    List.any_eq_true] at handing
  obtain ⟨s, -, silent, t, stepped, e, logged, hands⟩ := handing
  cases e with
  | enqueued db key query' params' batchMs =>
    simp only [Event.hands, Bool.and_eq_true, beq_iff_eq] at hands
    obtain ⟨rfl, rfl⟩ := hands
    exact ⟨_, a, t, db, key, batchMs, silent, stepped, source, logged⟩
  | _ => cases hands

def quotedDelete : GoString := lit "DELETE FROM t WHERE a = '?'"

def MariaDB.sendText (text : GoString) : List (MariaDB.proxy sharded).Input :=
  [((.query (lit "/* batch:10 */ " ++ text), {}) : MariaDB.Input × MariaDB.World)]

def MariaDB.nextText : (MariaDB.proxy sharded).Input :=
  ((.nextStatement, {}) : MariaDB.Input × MariaDB.World)

def handedText : Handed where
  source := .mariadbText
  query := quotedDelete
  params := []
  enqueued := ⟨sharded, Proxy.enqueues_of_handing (({}, lit "a") : MariaDB.World × GoString)
    (MariaDB.sendText quotedDelete) MariaDB.nextText rfl (by decide +kernel)⟩

def MariaDB.prepareText (text : GoString) : List (MariaDB.proxy sharded).Input :=
  [((.stmtPrepare (lit "/* batch:10 */ " ++ text),
    { reply := some [0, 1, 0, 0, 0, 0, 0, 1, 0, 0, 0, 0] }) : MariaDB.Input × MariaDB.World)]

def MariaDB.executeTiny (value : UInt8) : (MariaDB.proxy sharded).Input :=
  ((.stmtExecute [1, 0, 0, 0, 0, 1, 0, 0, 0, 0, 1, 1, 0, value], {}) :
    MariaDB.Input × MariaDB.World)

def keyedDelete : GoString := lit "DELETE FROM t WHERE id = ?"

def handedExecute : Handed where
  source := .mariadbExecute
  query := keyedDelete
  params := [.int 7]
  enqueued := ⟨sharded, Proxy.enqueues_of_handing (({}, lit "a") : MariaDB.World × GoString)
    (MariaDB.prepareText keyedDelete) (MariaDB.executeTiny 7) ⟨_, rfl⟩ (by decide +kernel)⟩

namespace WriteBatch

def keyedDeletes : Batch :=
  ⟨[{ query := keyedDelete, params := [.int 7] }, { query := keyedDelete, params := [.int 7] }],
    Nat.le_refl 2⟩

/-- Two prepared executions. -/
theorem delete_params_prepared :
    choosesDelete keyedDeletes = true ∧ ∀ r ∈ keyedDeletes.requests, 1 ≤ r.params.length :=
  ⟨by decide +kernel, ((delete_params_iff [handedExecute, handedExecute] keyedDeletes rfl
    (by decide +kernel)).mpr (by simp [Handed.carriesValue, handedExecute])).1⟩

def quotedDeletes : Batch :=
  ⟨[{ query := quotedDelete }, { query := quotedDelete }], Nat.le_refl 2⟩

/-- The manager takes the writes of two clients in one batch, deletes at once and reads a
parameter that is not there. -/
theorem delete_params_missing :
    (∃ s : System (MariaDB.proxy sharded), Reach (System.step 100) free .start s ∧
      s.manager.taken (.timer 0) = [0, 1] ∧
      s.requests.map (fun r => (r.query, r.params)) =
        quotedDeletes.requests.map fun r => (r.query, r.params)) ∧
    quotedDeletes.requests.map (fun r => (r.query, r.params)) =
      [handedText, handedText].map (fun h => (h.query, h.params)) ∧
    choosesDelete quotedDeletes = true ∧
    (∀ r ∈ quotedDeletes.requests, r.params.length = 0) ∧
    (executeBatchedWrites {} (fun _ => .ok 1 0 0) quotedDeletes {}).panicked = true := by
  refine ⟨?_, rfl, by decide +kernel, by decide, by decide +kernel⟩
  let sending (conn : Nat) : List (SystemAction (MariaDB.proxy sharded)) :=
    [.connect conn (({}, lit "a") : MariaDB.World × GoString),
     .client conn ((.query (lit "/* batch:10 */ " ++ quotedDelete), {}) :
       MariaDB.Input × MariaDB.World),
     .client conn MariaDB.nextText]
  obtain ⟨s, reach, seen⟩ := free_of_test (System.step 100) System.start
    (sending 0 ++ sending 1 ++ flushed.map .manager)
    (fun s => s.manager.taken (.timer 0) == [0, 1] &&
      s.requests.map (fun r => (r.query, r.params)) ==
        quotedDeletes.requests.map fun r => (r.query, r.params)) (by decide +kernel)
  simp only [Bool.and_eq_true, beq_iff_eq] at seen
  exact ⟨s, reach, seen⟩

end WriteBatch

end TQDBProxy
