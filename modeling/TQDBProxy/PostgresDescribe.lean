import TQDBProxy.PostgresPortals
import TQDBProxy.PostgresReady

/-! Describe and Execute. A client that has described a statement reads the rows of its
portals by that description. The proxy describes from the text alone, by a search for
RETURNING, and executes by what the backend or the manager returns. -/

namespace TQDBProxy.Postgres

open GuardedRuns TQDBProxy.Parser

/-- No rows are announced exactly when none are sent, an execution sends no description, and
each row has the columns that were announced, in their formats. -/
structure Agree (described executed : List Reply) : Prop where
  noData : .noData ∈ described ↔ ∀ fields, .dataRow fields ∉ executed
  undescribed : ∀ columns, .rowDescription columns ∉ executed
  own : ∀ bytes, .foreign bytes ∉ executed
  fields : ∀ fields, .dataRow fields ∈ executed →
    ∃ columns, .rowDescription columns ∈ described ∧ fields.map (·.format) = columns.map (·.format)

def Reply.bare : Reply → Bool
  | .rowDescription _ | .dataRow _ | .foreign _ => false
  | _ => true

/-- The text has no RETURNING, and the number of its parameters is in range. -/
def describable (query : GoString) : Bool :=
  !oversized (countPostgresParams query) && !Strings.contains (Strings.toUpper query)
    (lit " RETURNING ")

/-- The execution has no columns: not in what is cached, not from the manager and not
from the backend; and it has none where the proxy panics on its label. -/
def rowless (a : Answer) (store : Store) (parsed : ParsedQuery) (params : List (Option GoString))
    (s : Session) : Bool :=
  let key := executeKey s.database parsed params
  if !parsed.labelled && counted key.isSome parsed s a.world then true
  else if (servePrepared a.world key s).isSome then ((key.bind store).getD []).all Reply.bare
  else if batched parsed s then a.world.enqueue.error.isSome || a.world.enqueue.returningValues = []
  else a.world.failure.isSome || a.rows.columns = []

variable {a : Answer} {store : Store} {s : Session} {payload : List UInt8} {parsed : ParsedQuery}
  {params : List (Option GoString)} {query : GoString}

/-! ### The replies of an execution -/

theorem rowReplies_bare (done : String) (r : Rows) :
    (rowReplies done r).all Reply.bare = decide (r.columns = []) := by
  unfold rowReplies
  split
  · rename_i empty
    simp [empty, Reply.bare]
  · rename_i columns
    simp [columns, Reply.bare]

theorem portalOutcome_bare :
    (portalOutcome a store parsed params s).replies.all Reply.bare =
      rowless a store parsed params s := by
  unfold portalOutcome rowless counting counted
  dsimp only
  cases labelled : parsed.labelled with
  | true =>
    simp only [Bool.not_true, Bool.and_false, Bool.false_and, Bool.false_eq_true, if_false, if_true]
    split
    · rfl
    · split
      · unfold batchedRow
        cases a.world.enqueue.error with
        | some e => rfl
        | none => cases a.world.enqueue.returningValues <;> rfl
      · cases a.world.failure with
        | some e => rfl
        | none => simpa using rowReplies_bare _ _
  | false =>
    cases cached : executeKey s.database parsed params with
    | some key => rfl
    | none =>
      cases batched parsed s with
      | true => rfl
      | false => cases a.world.failure <;> rfl

/-- Replies of which none is a row, the rows of a backend with their description, bytes of
another protocol, or one row in binary. -/
inductive Executed : List Reply → Prop where
  | bare (replies : List Reply) : replies.all Reply.bare = true → Executed replies
  | rows (replies : List Reply) (columns : List Column) : .rowDescription columns ∈ replies →
      Executed replies
  | foreign (bytes : List UInt8) : Executed [.foreign bytes]
  | binary (value : GoString) (rest : List Reply) :
      Executed (.dataRow [⟨.binary, some value⟩] :: rest)

/-- What is cached for an execution was sent by one, or is foreign. -/
def Filled (store : Store) : Prop :=
  ∀ digested replies, store (.prepared digested) = some replies →
    (∃ done r, replies = rowReplies done r) ∨ ∃ bytes, replies = [.foreign bytes]

theorem executed_rowReplies (done : String) (r : Rows) : Executed (rowReplies done r) := by
  unfold rowReplies
  split
  · exact .bare _ rfl
  · exact .rows _ _ (List.mem_append_left _ (List.mem_cons_self ..))

theorem executed_counting {o : Outcome} (executed : Executed o.replies) :
    Executed (counting parsed o).replies := by
  unfold counting
  split
  · exact executed
  · exact .bare _ rfl

theorem portalOutcome_executed (filled : Filled store) :
    Executed (portalOutcome a store parsed params s).replies := by
  unfold portalOutcome
  dsimp only
  split
  · exact .bare _ rfl
  split
  · cases cached : executeKey s.database parsed params with
    | none => exact .bare _ rfl
    | some key =>
      obtain ⟨digested, rfl⟩ := executeKey_prepared cached
      dsimp only [Option.bind]
      cases found : store (.prepared digested) with
      | none => exact .bare _ rfl
      | some replies =>
        obtain ⟨done, r, rfl⟩ | ⟨bytes, rfl⟩ := filled _ _ found
        · exact executed_rowReplies done r
        · exact .foreign bytes
  · split
    · refine executed_counting ?_
      split
      · exact .bare _ rfl
      · unfold batchedRow
        split
        · exact .bare _ rfl
        · exact .binary _ _
    · split
      · exact .bare _ rfl
      · exact executed_counting (executed_rowReplies _ _)

/-! ### Agreement -/

theorem bare_iff {replies : List Reply} : replies.all Reply.bare = true ↔
    (∀ fields, .dataRow fields ∉ replies) ∧ (∀ columns, .rowDescription columns ∉ replies) ∧
      ∀ bytes, .foreign bytes ∉ replies := by
  constructor
  · intro bare
    have each := List.all_eq_true.mp bare
    exact ⟨fun _ mem => by simpa [Reply.bare] using each _ mem,
      fun _ mem => by simpa [Reply.bare] using each _ mem,
      fun _ mem => by simpa [Reply.bare] using each _ mem⟩
  · rintro ⟨rows, columns, own⟩
    refine List.all_eq_true.mpr fun r mem => ?_
    cases r with
    | dataRow fields => exact absurd mem (rows fields)
    | rowDescription described => exact absurd mem (columns described)
    | foreign bytes => exact absurd mem (own bytes)
    | _ => rfl

theorem agree_noData_iff {numParams : Nat} {executed : List Reply} :
    Agree [.parameterDescription numParams, .noData] executed ↔ executed.all Reply.bare = true := by
  rw [bare_iff]
  constructor
  · intro agree
    exact ⟨agree.noData.mp (by simp), agree.undescribed, agree.own⟩
  · rintro ⟨rows, columns, own⟩
    exact ⟨by simpa using rows, columns, own, fun fields mem => absurd mem (rows fields)⟩

theorem not_agree_of_silent {described executed : List Reply} (sent : Executed executed)
    (silent : .noData ∉ described)
    (text : ∀ columns, .rowDescription columns ∈ described → columns.map (·.format) = [.text]) :
    ¬ Agree described executed := by
  intro agree
  cases sent with
  | bare _ bare => exact silent (agree.noData.mpr (bare_iff.mp bare).1)
  | rows _ columns mem => exact agree.undescribed columns mem
  | foreign bytes => exact agree.own bytes (List.mem_singleton.mpr rfl)
  | binary value rest =>
    obtain ⟨columns, mem, formats⟩ := agree.fields _ (List.mem_cons_self ..)
    rw [text columns mem] at formats
    simp at formats

theorem describeStatement_iff (query : GoString) {executed : List Reply}
    (sent : Executed executed) :
    Agree (describeStatement query).replies executed ↔ describable query = true ∧
      executed.all Reply.bare = true := by
  cases size : oversized (countPostgresParams query) with
  | true =>
    have never : ¬ Agree [] executed := not_agree_of_silent sent (by simp) (by simp)
    simp [describeStatement, describable, size, never]
  | false =>
    cases found : Strings.index (Strings.toUpper query) (lit " RETURNING ") with
    | none =>
      simpa [describeStatement, describable, size, found, Strings.contains] using agree_noData_iff
    | some index =>
      have never : ¬ Agree (describeStatement query).replies executed := by
        refine not_agree_of_silent sent ?_ ?_
        · cases column : returningColumn query index
            <;> simp [describeStatement, size, found, column]
        · cases column : returningColumn query index
            <;> simp [describeStatement, size, found, column]
      simp [never, describable, found, Strings.contains]

/-! ### Messages -/

theorem describeOutcome_statement {body stmtName rest : List UInt8}
    (named : takeName body = some (stmtName, rest))
    (prepared : lookup stmtName s.preparedStatements = some query) :
    describeOutcome (83 :: body) s = describeStatement query := by
  have handled : handleDescribe (83 :: body) s = none := by
    cases body with
    | nil => cases named
    | cons b after => simp [handleDescribe, named, prepared]
  simp [describeOutcome, handled, named, prepared]

theorem executeOutcome_portal {portalName rest : List UInt8}
    (named : takeName payload = some (portalName, rest))
    (bound : portalRun s portalName = some (query, params)) :
    executeOutcome a store payload s = portalOutcome a store (parse query) params s := by
  obtain ⟨text, found, same⟩ := Option.map_eq_some_iff.mp bound
  obtain ⟨rfl, rfl⟩ := Prod.mk.inj same
  simp [executeOutcome, named, found]

theorem filled_put {replies : List Reply} {key : CacheKey} (filled : Filled store)
    (good : ∀ digested, key = .prepared digested →
      (∃ done r, replies = rowReplies done r) ∨ ∃ bytes, replies = [.foreign bytes]) :
    Filled (Function.update store key (some replies)) := by
  intro digested replies' found
  by_cases same : .prepared digested = key
  · subst key
    obtain rfl : replies = replies' := by simpa using found
    exact good digested rfl
  · exact filled digested replies' (by simpa [same] using found)

theorem executeOutcome_rows {key : CacheKey}
    (stores : (executeOutcome a store payload s).stores = some key) :
    ∃ done r, (executeOutcome a store payload s).replies = rowReplies done r := by
  obtain ⟨parsed, params, same, -⟩ := executeOutcome_kept stores
  rw [same] at stores ⊢
  obtain ⟨unserved, labelled, direct, succeeds, -⟩ := portalOutcome_kept stores
  exact ⟨"INSERT 0 1", a.rows, by
    simp [portalOutcome, counting, labelled, unserved, direct, succeeds]⟩

theorem filled_outcome (store : Store) (a : Answer) (s : Session) (message : Message)
    (filled : Filled store) :
    Filled (store.put (outcome a store s message).replies (outcome a store s message).stores) := by
  cases stores : (outcome a store s message).stores with
  | none => exact filled
  | some key =>
    refine filled_put filled fun digested same => .inl ?_
    subst key
    cases message with
    | execute payload => exact executeOutcome_rows stores
    | query payload =>
      obtain ⟨⟨query, text⟩, -⟩ := queryOutcome_stores stores
      cases text
    | _ =>
      rw [outcome_stores_none (by simp [Message.runs])] at stores
      cases stores

theorem serve_filled {v u : Serving} {act : ServingAction} (filled : Filled v.store)
    (taken : serve v act = some u) :
    Filled u.store :=
  serve_store (fun _ _ bytes kept => filled_put kept fun _ _ => .inr ⟨bytes, rfl⟩) filled_outcome
    filled taken

theorem replay_filled {sessions : Nat → Session} {v : Serving} (actions : List ServingAction)
    (run : replay serve { sessions := sessions } actions = some v) : Filled v.store := by
  refine replay_invariant (P := fun v => Filled v.store) (fun _ _ _ => serve_filled) ?_ actions run
  intro digested replies found
  cases found

/-- The description of a statement and the output of an execution agree exactly when the text
has no RETURNING, its parameters can be described, and the execution has no columns. -/
theorem describe_execute_agree_iff {sessions : Nat → Session} {v : Serving}
    (actions : List ServingAction) (run : replay serve { sessions := sessions } actions = some v)
    (conn : Nat) (a : Answer) {s : Session} {body stmtName rest : List UInt8}
    (described : takeName body = some (stmtName, rest))
    (prepared : lookup stmtName s.preparedStatements = some query) {portalName after : List UInt8}
    (executed : takeName payload = some (portalName, after))
    (bound : portalRun (v.sessions conn) portalName = some (query, params)) :
    Agree (describeOutcome (83 :: body) s).replies
        (executeOutcome a v.store payload (v.sessions conn)).replies ↔
      describable query = true ∧ rowless a v.store (parse query) params (v.sessions conn) =
        true := by
  rw [describeOutcome_statement described prepared, executeOutcome_portal executed bound,
    ← portalOutcome_bare]
  exact describeStatement_iff query (portalOutcome_executed (replay_filled actions run))

def bindingTo (text : String) : List ServingAction :=
  [.message 0 (preparing "q" text) silent, .message 0 (binding "q" "7") silent]

theorem describe_execute_agree_delete :
    ∃ v, replay serve { sessions := fun _ => client } (bindingTo "DELETE FROM t WHERE a = $1") =
      some v ∧
      Agree (describeOutcome (83 :: (lit "q" ++ [0])) (v.sessions 0)).replies
        (executeOutcome {} v.store [0, 0, 0, 0, 0] (v.sessions 0)).replies := by
  have replayed :
    (replay serve { sessions := fun _ => client } (bindingTo "DELETE FROM t WHERE a = $1")).map
      (fun v => decide
        (lookup (lit "q") (v.sessions 0).preparedStatements =
          some (lit "DELETE FROM t WHERE a = $1") ∧
        portalRun (v.sessions 0) [] = some (lit "DELETE FROM t WHERE a = $1", [some (lit "7")]) ∧
        rowless {} v.store (parse (lit "DELETE FROM t WHERE a = $1")) [some (lit "7")]
          (v.sessions 0) = true)) =
      some true := by decide +kernel
  obtain ⟨v, run, ends⟩ := Option.map_eq_some_iff.mp replayed
  obtain ⟨prepared, bound, without⟩ := of_decide_eq_true ends
  have described : takeName (lit "q" ++ [0]) = some (lit "q", []) := by decide
  have executed : takeName [0, 0, 0, 0, 0] = some ([], [0, 0, 0, 0]) := by decide
  refine ⟨v, run, ?_⟩
  exact (describe_execute_agree_iff _ run 0 {} described prepared executed bound).mpr
    ⟨by decide +kernel, without⟩

def described (text : String) (a : Answer) : Option (List Reply × List Reply) :=
  (replay serve { sessions := fun _ => client } (bindingTo text)).map fun v =>
    ((describeOutcome (83 :: (lit "q" ++ [0])) (v.sessions 0)).replies,
     (executeOutcome a v.store [0, 0, 0, 0, 0] (v.sessions 0)).replies)

/-- A SELECT is described as having no rows and sends one; a RETURNING sends a description of
its own, and the value of a batched one in binary. -/
theorem describe_execute_disagree :
    (∃ x, described "SELECT a FROM t WHERE b = $1" oneRow = some x ∧
      .noData ∈ x.1 ∧ .dataRow [⟨.text, some (lit "5")⟩] ∈ x.2 ∧ ¬ Agree x.1 x.2) ∧
    (∃ x, described "INSERT INTO t VALUES ($1) RETURNING a" oneRow = some x ∧
      .rowDescription [⟨lit "a", 23, 4, .text⟩] ∈ x.1 ∧ .rowDescription [textColumn (lit "a")] ∈
        x.2 ∧ ¬ Agree x.1 x.2) ∧
    (∃ x, described "/* batch:10 */ INSERT INTO t VALUES ($1) RETURNING a"
        { world := { enqueue := { returningValues := [.int 5] } } } = some x ∧
      x.1 = [.parameterDescription 1, .rowDescription [⟨lit "a", 23, 4, .text⟩]] ∧
      .dataRow [⟨.binary, some [0, 0, 0, 5]⟩] ∈ x.2 ∧ ¬ Agree x.1 x.2) := by
  refine ⟨?_, ?_, ?_⟩
  · have sent : (described "SELECT a FROM t WHERE b = $1" oneRow).map
        (fun x => decide (.noData ∈ x.1 ∧ .dataRow [⟨.text, some (lit "5")⟩] ∈ x.2)) =
          some true := by decide +kernel
    obtain ⟨x, found, ends⟩ := Option.map_eq_some_iff.mp sent
    obtain ⟨silent, row⟩ := of_decide_eq_true ends
    exact ⟨x, found, silent, row, fun agree => agree.noData.mp silent _ row⟩
  · have sent : (described "INSERT INTO t VALUES ($1) RETURNING a" oneRow).map
        (fun x => decide (.rowDescription [⟨lit "a", 23, 4, .text⟩] ∈ x.1 ∧
          .rowDescription [textColumn (lit "a")] ∈ x.2)) = some true := by decide +kernel
    obtain ⟨x, found, ends⟩ := Option.map_eq_some_iff.mp sent
    obtain ⟨announced, own⟩ := of_decide_eq_true ends
    exact ⟨x, found, announced, own, fun agree => agree.undescribed _ own⟩
  · have sent : (described "/* batch:10 */ INSERT INTO t VALUES ($1) RETURNING a"
        { world := { enqueue := { returningValues := [.int 5] } } }).map
        (fun x => decide
          (x.1 = [.parameterDescription 1, .rowDescription [⟨lit "a", 23, 4, .text⟩]] ∧
          .dataRow [⟨.binary, some [0, 0, 0, 5]⟩] ∈ x.2)) = some true := by decide +kernel
    obtain ⟨x, found, ends⟩ := Option.map_eq_some_iff.mp sent
    obtain ⟨announced, row⟩ := of_decide_eq_true ends
    refine ⟨x, found, announced, row, fun agree => ?_⟩
    obtain ⟨columns, mem, formats⟩ := agree.fields _ row
    rw [announced] at mem
    obtain rfl : columns = [⟨lit "a", 23, 4, .text⟩] := by simpa using mem
    simp at formats

end TQDBProxy.Postgres
