import Mathlib.Logic.Function.Basic
import TQDBProxy.PostgresReplies

/-! ReadyForQuery. A client matches answers to requests by counting these messages: each
simple query and each Sync is to end in one, and nothing else is to send one. The clients
of the proxy share its cache, into which the MariaDB proxy stores as well, and share the
process that a panic ends. -/

namespace TQDBProxy.Postgres

open GuardedRuns TQDBProxy.Parser

def Reply.isReady : Reply → Bool
  | .readyForQuery => true
  | _ => false

def Reply.isForeign : Reply → Bool
  | .foreign _ => true
  | _ => false

def Message.awaitsReady : Message → Bool
  | .query _ | .sync => true
  | _ => false

/-- A query and a Sync are answered with one ReadyForQuery, the last reply; no other
message is. -/
def readyOnce (message : Message) (replies : List Reply) : Bool :=
  if message.awaitsReady then
    replies.getLast?.any Reply.isReady && replies.dropLast.all (!·.isReady)
  else replies.all (!·.isReady)

/-- The connections of the proxy, what they share, and what each message was answered
with. -/
structure Serving where
  sessions : Nat → Session
  store : Store := fun _ => none
  crashed : Bool := false
  sent : List (Message × List Reply) := []

inductive ServingAction where
  | message (conn : Nat) (message : Message) (answer : Answer)
  | foreign (key : CacheKey) (bytes : List UInt8)

def lookedUp (s : Session) : Message → Option CacheKey
  | .query payload =>
    if asksStatus (queryText payload) then none else textKey (parse (queryText payload))
  | .execute payload =>
    (takeName payload).bind fun (portalName, _) =>
      (lookup (portalStatement s portalName) s.preparedStatements).bind fun query =>
        executeKey s.database (parse query) (portalParams s portalName)
  | _ => none

def returnedBytes (w : World) : Message → List (List UInt8)
  | .query _ => (w.get.map (·.1)).toList ++ w.getOrWait.1.toList
  | .execute _ => (w.get.map (·.1)).toList
  | _ => []

def fits (store : Store) (s : Session) (w : World) (message : Message) : Bool :=
  match lookedUp s message with
  | none => true
  | some key => (returnedBytes w message).all fun bytes => (store key).any fun replies =>
    encodeAll replies = bytes

def Store.put (store : Store) (replies : List Reply) : Option CacheKey → Store
  | none => store
  | some key => Function.update store key (some replies)

def serve (v : Serving) : ServingAction → Option Serving
  | .message conn message a =>
    let s := v.sessions conn
    if s.terminated then none
    else if v.crashed then some { v with sent := (message, []) :: v.sent }
    else if fits v.store s a.world message then
      let o := outcome a v.store s message
      some
        { sessions := Function.update v.sessions conn (handleMessage a.world message s)
          store := v.store.put o.replies o.stores
          crashed := o.panics
          sent := (message, o.replies) :: v.sent }
    else none
  | .foreign key bytes =>
    some { v with store := Function.update v.store key (some [.foreign bytes]) }

def servesForeign (store : Store) (s : Session) (w : World) (payload : List UInt8) : Bool :=
  let query := queryText payload
  !asksStatus query && (serveCached w (parse query) (trackTransaction query s)).isSome &&
    (store (.text (parse query).query)).any (·.any Reply.isForeign)

/-- A statement is counted when it is looked up in the cache, when it joins a batch, and when
it succeeds. -/
def counted (looked : Bool) (parsed : ParsedQuery) (s : Session) (w : World) : Bool :=
  looked || batched parsed s || w.failure.isNone

def mislabels (s : Session) (w : World) (payload : List UInt8) : Bool :=
  let query := queryText payload
  !asksStatus query && !(parse query).labelled &&
    counted (parse query).isCacheable (parse query) (trackTransaction query s) w

/-- Every Parse and Bind is well formed, every message is known, no simple query is answered
with foreign bytes or counted under a label that is refused, and none comes after a panic. -/
def keepsCount (v : Serving) : ServingAction → Bool
  | .message conn message a =>
    let s := v.sessions conn
    if v.crashed then !message.awaitsReady
    else
      match message with
      | .query payload => !servesForeign v.store s a.world payload && !mislabels s a.world payload
      | .parse payload => (parsedStatement payload).isSome
      | .bind payload => (boundPortal s payload).isSome
      | .other _ => false
      | _ => true
  | .foreign .. => true

variable {a : Answer} {store : Store} {s : Session} {w : World} {payload : List UInt8}
  {parsed : ParsedQuery}

/-! ### One answer -/

def Reply.plain (r : Reply) : Bool := !r.isReady && !r.isForeign

theorem quiet_of_plain {replies : List Reply} (plain : replies.all Reply.plain = true) :
    replies.all (!·.isReady) = true := by
  refine List.all_eq_true.mpr fun r mem => ?_
  exact (Bool.and_eq_true_iff.mp (List.all_eq_true.mp plain r mem)).1

theorem rowReplies_plain (done : String) (r : Rows) :
    (rowReplies done r).all Reply.plain = true := by
  unfold rowReplies
  split
  · rfl
  · simp [Reply.plain, Reply.isReady, Reply.isForeign]

theorem batchReplies_plain : (batchReplies a).all Reply.plain = true := by
  unfold batchReplies
  split <;> rfl

theorem batchedRow_plain : (batchedRow a).all Reply.plain = true := by
  unfold batchedRow
  split <;> rfl

def Whole (replies : List Reply) : Prop :=
  ∃ before : List Reply, before.all Reply.plain = true ∧ replies = before ++ [.readyForQuery]

theorem Whole.ready {message : Message} {replies : List Reply} (whole : Whole replies)
    (awaits : message.awaitsReady = true) : readyOnce message replies = true := by
  obtain ⟨before, plain, rfl⟩ := whole
  simpa [readyOnce, awaits, Reply.isReady] using quiet_of_plain plain

theorem Whole.own {replies : List Reply} (whole : Whole replies) :
    replies.any Reply.isForeign = false := by
  obtain ⟨before, plain, rfl⟩ := whole
  refine List.any_eq_false.mpr fun r mem => ?_
  rcases List.mem_append.mp mem with mem | mem
  · have own := (Bool.and_eq_true_iff.mp (List.all_eq_true.mp plain r mem)).2
    simpa using own
  · simp [List.mem_singleton.mp mem, Reply.isForeign]

theorem whole_status : Whole (handleShowTQDBStatus s) := by
  refine ⟨_, ?_, rfl⟩
  by_cases batch : 0 < s.lastBatchSize
  · simp [batch, statusRow, Reply.plain, Reply.isReady, Reply.isForeign]
  · simp [batch, statusRow, Reply.plain, Reply.isReady, Reply.isForeign]

/-- What is stored under a text is a whole answer to a simple query or foreign, and what
is stored for an execution has no ReadyForQuery. -/
def Stocked (store : Store) : Prop :=
  ∀ key replies, store key = some replies →
    match key with
    | .text _ => (∃ bytes, replies = [.foreign bytes]) ∨ Whole replies
    | .prepared _ => replies.all (!·.isReady) = true

theorem textOutcome_whole (executes : (serveCached a.world parsed s).isSome = false)
    (labelled : counted parsed.isCacheable parsed s a.world = true → parsed.labelled = true) :
    Whole (textOutcome a store parsed s).replies := by
  unfold textOutcome
  rw [executes]
  simp only [Bool.false_eq_true, if_false]
  split
  · rename_i refused
    simp only [Bool.and_eq_true] at refused
    simp [labelled (by simp [counted, refused.1])] at refused
  · split
    · rename_i batch
      rw [counting, if_pos (labelled (by simp [counted, batch]))]
      split
      · exact ⟨[_], rfl, rfl⟩
      · exact ⟨_, batchReplies_plain, rfl⟩
    · split
      · exact ⟨[_], rfl, rfl⟩
      · rename_i succeeds
        rw [counting, if_pos (labelled (by simp [counted, succeeds]))]
        exact ⟨_, rowReplies_plain _ _, rfl⟩

theorem textOutcome_mislabelled (mislabelled : parsed.labelled = false)
    (counts : counted parsed.isCacheable parsed s a.world = true) :
    (textOutcome a store parsed s).replies = [] := by
  unfold textOutcome counting
  cases cacheable : parsed.isCacheable with
  | true => simp [mislabelled, Outcome.crash]
  | false =>
    have unserved : serveCached a.world parsed s = none := by simp [serveCached, cacheable]
    cases batch : batched parsed s with
    | true => simp [mislabelled, unserved, Outcome.crash]
    | false =>
      have succeeds : a.world.failure = none := by simpa [counted, cacheable, batch] using counts
      simp [mislabelled, unserved, succeeds, Outcome.crash]

theorem textOutcome_served (labelled : parsed.labelled = true)
    (served : (serveCached a.world parsed s).isSome = true) :
    (textOutcome a store parsed s).replies = (store (.text parsed.query)).getD [] := by
  simp [textOutcome, labelled, served]

theorem fits_held {message : Message} {key : CacheKey} {bytes : List UInt8}
    (fit : fits store s w message = true) (looks : lookedUp s message = some key)
    (returned : bytes ∈ returnedBytes w message) :
    ∃ replies, store key = some replies := by
  unfold fits at fit
  rw [looks] at fit
  have held := List.all_eq_true.mp fit bytes returned
  cases found : store key with
  | none => simp [found] at held
  | some replies => exact ⟨replies, rfl⟩

theorem serveCached_returned (payload : List UInt8)
    (served : (serveCached w parsed s).isSome = true) :
    parsed.isCacheable = true ∧ ∃ bytes, bytes ∈ returnedBytes w (.query payload) := by
  unfold serveCached at served
  split at served
  · cases served
  · rename_i cacheable
    refine ⟨by simpa using cacheable, ?_⟩
    split at served
    · rename_i bytes found
      exact ⟨bytes, by simp [returnedBytes, found]⟩
    · rename_i bytes found
      exact ⟨bytes, by simp [returnedBytes, found]⟩
    · split at served
      · rename_i bytes found
        exact ⟨bytes, by simp [returnedBytes, found]⟩
      · cases served

theorem queryOutcome_ready (stocked : Stocked store)
    (fit : fits store s a.world (.query payload) = true) :
    readyOnce (.query payload) (queryOutcome a store payload s).replies =
      (!servesForeign store s a.world payload && !mislabels s a.world payload) := by
  unfold queryOutcome servesForeign mislabels
  dsimp only
  by_cases status : asksStatus (queryText payload) = true
  · simpa [status] using whole_status.ready rfl
  · simp only [status, Bool.false_eq_true, if_false, Bool.not_false, Bool.true_and]
    by_cases refused : (parse (queryText payload)).labelled = false ∧
        counted (parse (queryText payload)).isCacheable (parse (queryText payload))
          (trackTransaction (queryText payload) s) a.world = true
    · rw [textOutcome_mislabelled refused.1 refused.2, refused.1, refused.2]
      simp [readyOnce, Message.awaitsReady]
    · have labelled := fun counts => (Bool.not_eq_false _).mp fun mislabelled =>
        refused ⟨mislabelled, counts⟩
      have quiet : (!(parse (queryText payload)).labelled &&
          counted (parse (queryText payload)).isCacheable (parse (queryText payload))
            (trackTransaction (queryText payload) s) a.world) = false := by simpa using refused
      rw [quiet]
      cases served : (serveCached a.world (parse (queryText payload))
          (trackTransaction (queryText payload) s)).isSome with
      | false => simpa using (textOutcome_whole served labelled).ready rfl
      | true =>
        obtain ⟨cacheable, bytes, returned⟩ := serveCached_returned payload served
        have looks : lookedUp s (.query payload) =
            some (.text (parse (queryText payload)).query) := by
          simp [lookedUp, status, textKey, cacheable]
        obtain ⟨replies, found⟩ := fits_held fit looks returned
        rw [textOutcome_served (labelled (by simp [counted, cacheable])) served, found]
        obtain ⟨bytes, rfl⟩ | whole := stocked _ _ found
        · rfl
        · have ready : readyOnce (.query payload) replies = true := whole.ready rfl
          simp [whole.own, ready]

theorem executeKey_prepared {database : GoString} {params : List (Option GoString)} {key : CacheKey}
    (cached : executeKey database parsed params = some key) :
      ∃ digested, key = .prepared digested := by
  unfold executeKey at cached
  split at cached <;> cases cached
  exact ⟨_, rfl⟩

theorem counting_quiet {o : Outcome} (quiet : o.replies.all (!·.isReady) = true) :
    (counting parsed o).replies.all (!·.isReady) = true := by
  unfold counting
  split
  · exact quiet
  · rfl

theorem portalOutcome_quiet {params : List (Option GoString)} (stocked : Stocked store) :
    (portalOutcome a store parsed params s).replies.all (!·.isReady) = true := by
  unfold portalOutcome
  dsimp only
  split
  · rfl
  split
  · cases cached : executeKey s.database parsed params with
    | none => rfl
    | some key =>
      obtain ⟨digested, rfl⟩ := executeKey_prepared cached
      dsimp only [Option.bind]
      cases found : store (.prepared digested) with
      | none => rfl
      | some replies => exact stocked _ _ found
  · split
    · refine counting_quiet ?_
      split
      · rfl
      · exact quiet_of_plain batchedRow_plain
    · split
      · rfl
      · exact counting_quiet (quiet_of_plain (rowReplies_plain _ _))

theorem executeOutcome_quiet (stocked : Stocked store) :
    (executeOutcome a store payload s).replies.all (!·.isReady) = true := by
  unfold executeOutcome
  split
  · rfl
  · split
    · rfl
    · exact portalOutcome_quiet stocked

theorem describeOutcome_quiet : (describeOutcome payload s).replies.all (!·.isReady) = true :=
  describeOutcome_rule (P := fun o => o.replies.all (!·.isReady) = true) (fun _ => rfl)
    rfl rfl (fun _ => rfl)
    (fun _ => rfl) fun _ _ => rfl

/-! ### What is cached -/

theorem stocked_put {replies : List Reply} {key : CacheKey} (stocked : Stocked store)
    (good : match key with
      | .text _ => (∃ bytes, replies = [.foreign bytes]) ∨ Whole replies
      | .prepared _ => replies.all (!·.isReady) = true) :
    Stocked (Function.update store key (some replies)) := by
  intro key' replies' found
  by_cases same : key' = key
  · subst key'
    obtain rfl : replies = replies' := by simpa using found
    exact good
  · exact stocked key' replies' (by simpa [same] using found)

theorem keptKey_eq {key : Option CacheKey} {k : CacheKey} (kept : keptKey parsed key = some k) :
    key = some k := by
  unfold keptKey at kept
  split at kept
  · exact kept
  · cases kept

theorem textOutcome_stores {key : CacheKey}
    (stores : (textOutcome a store parsed s).stores = some key) :
    (∃ query, key = .text query) ∧ Whole (textOutcome a store parsed s).replies := by
  obtain ⟨unserved, keeping⟩ := textOutcome_kept stores
  refine ⟨?_, textOutcome_whole (by rw [unserved]; rfl) fun _ => keeping.labelled⟩
  have text := keptKey_eq keeping.kept
  unfold textKey at text
  split at text <;> cases text
  exact ⟨_, rfl⟩

theorem queryOutcome_stores {key : CacheKey}
    (stores : (queryOutcome a store payload s).stores = some key) :
    (∃ query, key = .text query) ∧ Whole (queryOutcome a store payload s).replies := by
  unfold queryOutcome at stores ⊢
  dsimp only at stores ⊢
  split at stores
  · cases stores
  · rename_i plain
    rw [if_neg plain]
    exact textOutcome_stores stores

theorem executeOutcome_stores {key : CacheKey}
    (stores : (executeOutcome a store payload s).stores = some key) :
    ∃ digested, key = .prepared digested := by
  obtain ⟨parsed, params, same, -⟩ := executeOutcome_kept stores
  rw [same] at stores
  exact executeKey_prepared (keptKey_eq (portalOutcome_kept stores).2.kept)

theorem stocked_outcome (stocked : Stocked store) (message : Message) :
    Stocked (store.put (outcome a store s message).replies (outcome a store s message).stores) := by
  cases stores : (outcome a store s message).stores with
  | none => exact stocked
  | some key =>
    cases message with
    | query payload =>
      obtain ⟨⟨query, rfl⟩, whole⟩ := queryOutcome_stores stores
      exact stocked_put stocked (.inr whole)
    | execute payload =>
      obtain ⟨digested, rfl⟩ := executeOutcome_stores stores
      exact stocked_put stocked (executeOutcome_quiet stocked)
    | _ =>
      rw [outcome_stores_none (by simp [Message.runs])] at stores
      cases stores

/-! ### Runs -/

theorem handleParse_fine : (handleParse payload s).1.isNone = (parsedStatement payload).isSome := by
  unfold handleParse parsedStatement
  cases takeName payload with
  | none => rfl
  | some named =>
    dsimp only
    cases takeName named.2 <;> rfl

theorem handleBind_fine : (handleBind payload s).1.isNone = (boundPortal s payload).isSome := by
  unfold handleBind boundPortal
  cases takeName payload with
  | none => rfl
  | some named =>
    dsimp only
    cases takeName named.2 with
    | none => rfl
    | some found =>
      dsimp only
      split
      · rfl
      · cases bindParams found.2 <;> rfl

theorem completing_ready {message : Message} {handled : Handled} {complete : Reply} {fine : Bool}
    (extended : message.awaitsReady = false) (quiet : complete.isReady = false)
    (same : handled.1.isNone = fine) :
    readyOnce message (completing handled complete).replies = fine := by
  subst same
  unfold completing readyOnce
  rw [extended]
  cases handled.1 with
  | none => simp [quiet]
  | some e => rfl

theorem outcome_ready {v : Serving} {conn : Nat} {message : Message} (stocked : Stocked v.store)
    (running : v.crashed = false) (fit : fits v.store (v.sessions conn) a.world message = true) :
    readyOnce message (outcome a v.store (v.sessions conn) message).replies =
      keepsCount v (.message conn message a) := by
  unfold keepsCount
  dsimp only
  rw [running]
  simp only [Bool.false_eq_true, if_false]
  cases message with
  | query payload => exact queryOutcome_ready stocked fit
  | parse payload => exact completing_ready rfl rfl handleParse_fine
  | bind payload => exact completing_ready rfl rfl handleBind_fine
  | describe payload => exact describeOutcome_quiet
  | execute payload => exact executeOutcome_quiet stocked
  | close | sync | terminate | other => rfl

theorem serve_store {P : Store → Prop} {v u : Serving} {act : ServingAction}
    (foreign : ∀ store key bytes, P store → P (Function.update store key (some [.foreign bytes])))
    (answered : ∀ store a s message, P store →
      P (Store.put store (outcome a store s message).replies (outcome a store s message).stores))
    (kept : P v.store) (taken : serve v act = some u) : P u.store := by
  cases act with
  | foreign key bytes =>
    obtain rfl := Option.some.inj taken
    exact foreign v.store key bytes kept
  | message conn message a =>
    simp only [serve] at taken
    split at taken
    · cases taken
    · split at taken
      · cases taken
        exact kept
      · split at taken
        · cases taken
          exact answered v.store a _ message kept
        · cases taken

theorem stocked_foreign (store : Store) (key : CacheKey) (bytes : List UInt8)
    (stocked : Stocked store) :
    Stocked (Function.update store key (some [.foreign bytes])) := by
  refine stocked_put stocked ?_
  cases key with
  | text query => exact .inl ⟨bytes, rfl⟩
  | prepared digested => rfl

theorem serve_stocked {v u : Serving} {act : ServingAction} (stocked : Stocked v.store)
    (taken : serve v act = some u) :
    Stocked u.store :=
  serve_store stocked_foreign (fun _ _ _ message kept => stocked_outcome kept message) stocked taken

theorem serve_sent {v u : Serving} {act : ServingAction} (stocked : Stocked v.store)
    (taken : serve v act = some u) :
    (∀ x ∈ u.sent, readyOnce x.1 x.2 = true) ↔
      (∀ x ∈ v.sent, readyOnce x.1 x.2 = true) ∧ keepsCount v act = true := by
  cases act with
  | foreign key bytes =>
    obtain rfl := Option.some.inj taken
    simp [keepsCount]
  | message conn message a =>
    simp only [serve] at taken
    split at taken
    · cases taken
    · split at taken
      · rename_i crashed
        cases taken
        have silent : readyOnce message [] = keepsCount v (.message conn message a) := by
          cases awaits : message.awaitsReady <;> simp [readyOnce, keepsCount, crashed, awaits]
        simp [silent, and_comm]
      · rename_i running
        split at taken
        · rename_i fit
          cases taken
          have ready := outcome_ready (a := a) stocked (by simpa using running) fit
          simp [ready, and_comm]
        · cases taken

def silent : Answer := {}

def oneRow : Answer where
  rows := { columns := [lit "a"], rows := [[some (lit "5")]] }

def cachedRow : Answer where
  world := { get := some (encodeAll (rowReplies "OK" oneRow.rows ++ [.readyForQuery]), .fresh) }

/-- One client fills the cache, a second one is served from it and runs a statement, and
asks for the status. -/
def twoClients : List ServingAction :=
  [.message 0 (.query (lit "/* ttl:60 */ SELECT a FROM t" ++ [0])) oneRow,
   .message 1 (.query (lit "/* ttl:60 */ SELECT a FROM t" ++ [0])) cachedRow,
   .message 1 (preparing "remove" "DELETE FROM t WHERE a = $1") {},
     .message 1 (binding "remove" "5") {},
   .message 1 executing {}, .message 1 .sync {}, .message 1 (.query (lit "pg_tqdb_status")) {}]

end TQDBProxy.Postgres
