import TQDBProxy.PostgresSession

/-! What the handlers of the PostgreSQL proxy do to the transaction flag, the
client's session and the log, and from it the events of one step in terms of
the state before it. -/

namespace TQDBProxy.Postgres

open TQDBProxy.Parser SqlTokens

/-- What is asked of a handler: that it lets the client's session start no
transaction when it is `silent`, and which events it `emits`. -/
structure Limits where
  silent : Prop
  emits : Event → Prop
  plain : ∀ e, e.plain = true → emits e

structure Moves (L : Limits) (s t : Session) : Prop where
  flag : t.inTransaction = s.inTransaction
  database : t.database = s.database
  opened : L.silent → t.sessionOpen = true → s.sessionOpen = true
  emitted : ∀ e ∈ t.events, e ∈ s.events ∨ L.emits e

variable {L : Limits} {w : World} {s t u : Session} {parsed : ParsedQuery} {arrived : Option Nat}

theorem moves_refl (L : Limits) (s : Session) : Moves L s s where
  flag := rfl
  database := rfl
  opened := fun _ opened => opened
  emitted := fun _ mem => .inl mem

theorem Moves.trans (first : Moves L s t) (second : Moves L t u) : Moves L s u where
  flag := second.flag.trans first.flag
  database := second.database.trans first.database
  opened := fun silent opened => first.opened silent (second.opened silent opened)
  emitted := by
    intro e mem
    rcases second.emitted e mem with old | new
    · exact first.emitted e old
    · exact .inr new

def Session.route (s : Session) : Bool × GoString × Bool × List Event :=
  (s.inTransaction, s.database, s.sessionOpen, s.events)

theorem Moves.congr (moves : Moves L s t) (same : u.route = t.route) : Moves L s u := by
  simp only [Session.route, Prod.mk.injEq] at same
  obtain ⟨flag, database, opened, events⟩ := same
  constructor
  · rw [flag, moves.flag]
  · rw [database, moves.database]
  · rw [opened]
    exact moves.opened
  · rw [events]
    exact moves.emitted

theorem moves_note {e : Event} (allowed : L.emits e) : Moves L s (s.note e) where
  flag := rfl
  database := rfl
  opened := fun _ opened => opened
  emitted := by
    intro e' mem
    rcases List.mem_cons.mp mem with same | old
    · rw [same]
      exact .inr allowed
    · exact .inl old

theorem moves_runQuery {conn : Nat} {text : GoString} {args : List Value}
    (quiet : L.silent → noStart .postgres text = true) :
      Moves L s (runQuery w conn text args s) := by
  have sent : Moves L s (s.note (.sent none conn (.queryArgs text args))) :=
    moves_note (L.plain _ rfl)
  refine ⟨sent.flag, sent.database, ?_, sent.emitted⟩
  intro silent after
  simp only [runQuery] at after
  split at after
  · exact openAfter_of_noStart (quiet silent) after
  · exact after

theorem moves_selectBackend : Moves L s (selectBackend w parsed s).2.2 := by
  rcases selectBackend_session w parsed s with same | ⟨addr, same⟩
  · rw [same]
    exact moves_refl L s
  · rw [same]
    exact (moves_note (L.plain _ rfl)).congr rfl

theorem selectBackend_primary {p : ParsedQuery} (batchable : p.isBatchable = true) :
    (selectBackend w p s).1 = 0 := by
  unfold selectBackend
  rw [not_cacheable_of_batchable batchable]
  rfl

theorem moves_hit {name : String} {key : CacheKey}
    (allowed : L.emits (.served s.inTransaction key)) :
    Moves L s (hit name key s) :=
  (moves_note allowed).congr rfl

theorem moves_serveCached (allowed : parsed.isCacheable = true →
      L.emits (.served s.inTransaction (.text parsed.query)))
    (served : serveCached w parsed s = some t) : Moves L s t := by
  unfold serveCached at served
  split at served
  · cases served
  · rename_i cacheable
    have ok := allowed (by simpa using cacheable)
    split at served
    · cases served
      exact moves_hit ok
    · cases served
      exact moves_hit ok
    · split at served
      · cases served
        exact moves_hit ok
      · cases served

theorem moves_storeResult {key : CacheKey} {ttl : Nat}
    (allowed : L.emits (.stored s.inTransaction key)) : Moves L s (storeResult key ttl s) := by
  unfold storeResult
  split
  · exact moves_note allowed
  · exact moves_refl L s

theorem moves_batchWrite {params : List Value} (managed : L.emits (.write arrived .manager))
    (enqueued : L.emits
      (.enqueued s.database parsed.getBatchKey parsed.query params parsed.batchMs)) :
    Moves L s (batchWrite w parsed params arrived s).2 := by
  have noted : Moves L s ((s.note (.write arrived .manager)).note
      (.enqueued s.database parsed.getBatchKey parsed.query params parsed.batchMs)) :=
    (moves_note managed).trans (moves_note enqueued)
  unfold batchWrite
  dsimp only
  split
  · exact noted.congr rfl
  · split
    · exact noted
    · exact noted.congr rfl

theorem moves_noteWrite {conn : Nat}
    (allowed : parsed.isBatchable = true → L.emits (.write arrived (.backend conn))) :
    Moves L s (noteWrite parsed arrived conn s) := by
  unfold noteWrite
  split
  · rename_i batchable
    exact moves_note (allowed batchable)
  · exact moves_refl L s

theorem moves_executeQuery {args : List Value} {key : Option CacheKey}
    (quiet : L.silent → noStart .postgres parsed.query = true)
    (written : parsed.isBatchable = true → L.emits (.write arrived (.backend 0)))
    (stored : ∀ k, key = some k → L.emits (.stored s.inTransaction k)) :
    Moves L s (executeQuery w parsed args key arrived s).2 := by
  unfold executeQuery
  have selected : Moves L s (selectBackend w parsed s).2.2 := moves_selectBackend
  have primary := selectBackend_primary (w := w) (s := s) (p := parsed)
  generalize selectBackend w parsed s = selection at selected primary ⊢
  obtain ⟨conn, name, v⟩ := selection
  have noted : Moves L s (noteWrite parsed arrived conn v) := by
    refine selected.trans (moves_noteWrite fun batchable => ?_)
    rw [show conn = 0 from primary batchable]
    exact written batchable
  have ran : Moves L s (runQuery w conn parsed.query args (noteWrite parsed arrived conn v)) :=
    noted.trans (moves_runQuery quiet)
  dsimp only
  generalize runQuery w conn parsed.query args (noteWrite parsed arrived conn v) = after at ran ⊢
  have named : Moves L s { after with lastBackend := name, lastCacheHit := false } := ran.congr rfl
  cases w.failure with
  | none =>
    dsimp only
    split
    · exact ran.congr rfl
    · cases key with
      | none => exact named
      | some k =>
        dsimp only
        refine named.trans (moves_storeResult ?_)
        rw [named.flag]
        exact stored k rfl
  | some e =>
    cases key with
    | none => exact ran
    | some k => exact ran.trans (moves_note (L.plain _ rfl))

/-- What a handler may emit for one statement, under the flag of the session. -/
structure Permits (L : Limits) (s : Session) (parsed : ParsedQuery) (arrived : Option Nat) :
    Prop where
  managed : s.inTransaction = false → parsed.isBatchable = true → L.emits (.write arrived .manager)
  enqueued : s.inTransaction = false → parsed.isBatchable = true → ∀ params,
    L.emits (.enqueued s.database parsed.getBatchKey parsed.query params parsed.batchMs)
  written : parsed.isBatchable = true → L.emits (.write arrived (.backend 0))

theorem moves_handleText (quiet : L.silent → noStart .postgres parsed.query = true)
    (managed : s.inTransaction = false → parsed.isBatchable = true →
      L.emits (.write arrived .manager))
    (enqueued : s.inTransaction = false → parsed.isBatchable = true →
      L.emits (.enqueued s.database parsed.getBatchKey parsed.query [] parsed.batchMs))
    (written : parsed.isBatchable = true → L.emits (.write arrived (.backend 0)))
    (cached : parsed.isCacheable = true → L.emits (.served s.inTransaction (.text parsed.query)) ∧
      L.emits (.stored s.inTransaction (.text parsed.query))) :
    Moves L s (handleText w parsed arrived s).2 := by
  unfold handleText
  split
  · exact (moves_refl L s).congr rfl
  · split
    · rename_i served
      exact moves_serveCached (fun cacheable => (cached cacheable).1) served
    · split
      · rename_i free
        simp only [Bool.and_eq_true, Bool.not_eq_true'] at free
        obtain ⟨⟨outside, -⟩, batchable⟩ := free
        exact moves_batchWrite (managed outside batchable) (enqueued outside batchable)
      · refine moves_executeQuery quiet written fun k known => ?_
        unfold textKey at known
        split at known
        · rename_i cacheable
          cases known
          exact (cached cacheable).2
        · cases known

theorem moves_executePortal {params : List (Option GoString)}
    (quiet : L.silent → noStart .postgres parsed.query = true)
    (permits : Permits L s parsed s.openSession)
    (cached : ∀ k, executeKey s.database parsed params = some k →
      L.emits (.served s.inTransaction k) ∧ L.emits (.stored s.inTransaction k)) :
    Moves L s (executePortal w parsed params s).2 := by
  unfold executePortal
  dsimp only
  split
  · exact (moves_refl L s).congr rfl
  · split
    · rename_i served
      unfold servePrepared at served
      split at served
      · rename_i k _ known _
        cases served
        exact moves_hit (cached _ known).1
      · rename_i k _ known _
        cases served
        exact moves_hit (cached _ known).1
      · cases served
    · split
      · rename_i free
        simp only [Bool.and_eq_true, Bool.not_eq_true'] at free
        obtain ⟨⟨outside, -⟩, batchable⟩ := free
        exact moves_batchWrite (permits.managed outside batchable)
          (permits.enqueued outside batchable _)
      · exact moves_executeQuery quiet permits.written fun k known => (cached k known).2

theorem moves_handleParse {payload : List UInt8} : Moves L s (handleParse payload s).2 := by
  unfold handleParse
  split
  · exact moves_refl L s
  · split
    · exact moves_refl L s
    · exact (moves_refl L s).congr rfl

theorem moves_handleBind {payload : List UInt8} : Moves L s (handleBind payload s).2 := by
  unfold handleBind
  split
  · exact moves_refl L s
  · split
    · exact moves_refl L s
    · split
      · exact moves_refl L s
      · split
        · exact moves_refl L s
        · exact (moves_refl L s).congr rfl

theorem moves_handleClose {payload : List UInt8} : Moves L s (handleClose payload s) := by
  unfold handleClose
  split
  · dsimp only
    split
    · exact (moves_refl L s).congr rfl
    · split
      · exact (moves_refl L s).congr rfl
      · exact moves_refl L s
  · exact moves_refl L s

def portalFor (s : Session) (payload : List UInt8) :
    Option (ParsedQuery × List (Option GoString)) := do
  let (portalName, _) ← takeName payload
  let query ← lookup (portalStatement s portalName) s.preparedStatements
  some (parse query, portalParams s portalName)

theorem handleExecute_portal (payload : List UInt8) :
    (handleExecute w payload s).2 =
      match portalFor s payload with
      | none => s
      | some (parsed, params) => (executePortal w parsed params s).2 := by
  unfold handleExecute portalFor
  cases takeName payload with
  | none => rfl
  | some found =>
    simp only [Option.bind_eq_bind, Option.bind_some]
    cases lookup (portalStatement s found.1) s.preparedStatements <;> rfl

def flagAfter (s : Session) : Message → Bool
  | .query payload =>
    if asksStatus (queryText payload) then s.inTransaction
    else (trackTransaction (queryText payload) s).inTransaction
  | _ => s.inTransaction

def messageParsed (s : Session) : Message → Option ParsedQuery
  | .query payload =>
    if asksStatus (queryText payload) then none else some (parse (queryText payload))
  | .execute payload => (portalFor s payload).map (·.1)
  | _ => none

/-- A prepared execution is cached only when it has parameters. -/
def cacheableMessage (s : Session) : Message → Bool
  | .query payload => (messageParsed s (.query payload)).any (·.isCacheable)
  | .execute payload =>
    (portalFor s payload).any fun (parsed, params) => parsed.isCacheable && !params.isEmpty
  | _ => false

def batchableMessage (s : Session) (message : Message) : Bool :=
  (messageParsed s message).any (·.isBatchable)

def Emitted (s : Session) (message : Message) : Event → Prop
  | .write session route =>
    session = s.openSession ∧ batchableMessage s message = true ∧
      (route = .manager → flagAfter s message = false) ∧ ∀ conn, route = .backend conn → conn = 0
  | .enqueued db key _ _ _ =>
    flagAfter s message = false ∧ batchableMessage s message = true ∧ db = s.database ∧
      (messageParsed s message).map (·.getBatchKey) = some key
  | .served flag _ | .stored flag _ =>
    flag = flagAfter s message ∧ cacheableMessage s message = true
  | _ => True

def emitting (s : Session) (message : Message) : Limits where
  silent := False
  emits := Emitted s message
  plain := by
    intro e plain
    cases e <;> trivial

theorem trackTransaction_rest (query : GoString) (s : Session) :
    (trackTransaction query s).database = s.database ∧
      (trackTransaction query s).sessionOpen = s.sessionOpen ∧
      (trackTransaction query s).events = s.events := by
  unfold trackTransaction
  split
  · exact ⟨rfl, rfl, rfl⟩
  · split <;> exact ⟨rfl, rfl, rfl⟩

theorem emitted_handleQuery {payload : List UInt8} :
    ∀ e ∈ (handleQuery w payload s).2.events, e ∈ s.events ∨ Emitted s (.query payload) e := by
  unfold handleQuery
  dsimp only
  split
  · exact fun _ mem => .inl mem
  · rename_i executed
    obtain ⟨database, -, events⟩ := trackTransaction_rest (queryText payload) s
    have flag : flagAfter s (.query payload) =
        (trackTransaction (queryText payload) s).inTransaction := by
      simp [flagAfter, executed]
    have known : messageParsed s (.query payload) = some (parse (queryText payload)) := by
      simp [messageParsed, executed]
    have batches : (parse (queryText payload)).isBatchable = true →
        batchableMessage s (.query payload) = true := by
      intro batchable
      simpa [batchableMessage, known] using batchable
    rw [← events]
    refine (moves_handleText (L := emitting s (.query payload)) False.elim ?_ ?_ ?_ ?_).emitted
    · intro outside batchable
      exact ⟨rfl, batches batchable, fun _ => flag.trans outside, fun _ impossible => by
        cases impossible⟩
    · intro outside batchable
      exact ⟨flag.trans outside, batches batchable, database, by rw [known]; rfl⟩
    · intro batchable
      refine ⟨rfl, batches batchable, fun impossible => (by cases impossible), ?_⟩
      intro conn same
      cases same
      rfl
    · intro cacheable
      have caches : cacheableMessage s (.query payload) = true := by
        simpa [cacheableMessage, known] using cacheable
      exact ⟨⟨flag.symm, caches⟩, ⟨flag.symm, caches⟩⟩

theorem emitted_handleExecute {payload : List UInt8} :
    ∀ e ∈ (handleExecute w payload s).2.events, e ∈ s.events ∨ Emitted s (.execute payload) e := by
  rw [handleExecute_portal]
  split
  · exact fun _ mem => .inl mem
  · rename_i parsed params found
    have batches : parsed.isBatchable = true → batchableMessage s (.execute payload) = true := by
      intro batchable
      simpa [batchableMessage, messageParsed, found] using batchable
    refine (moves_executePortal (L := emitting s (.execute payload)) False.elim ⟨?_, ?_, ?_⟩
      ?_).emitted
    · intro outside batchable
      exact ⟨rfl, batches batchable, fun _ => outside, fun _ impossible => by cases impossible⟩
    · intro outside batchable _
      exact ⟨outside, batches batchable, rfl, by simp [messageParsed, found]⟩
    · intro batchable
      refine ⟨rfl, batches batchable, fun impossible => (by cases impossible), ?_⟩
      intro conn same
      cases same
      rfl
    · intro k key
      have caches : cacheableMessage s (.execute payload) = true := by
        unfold executeKey at key
        split at key
        · rename_i cacheable
          simpa [cacheableMessage, found] using cacheable
        · cases key
      exact ⟨⟨rfl, caches⟩, ⟨rfl, caches⟩⟩

/-- Every new event of a step is one that the state before it explains. -/
theorem step_emitted {a : Message × World} (taken : step s a = some t) :
    ∀ e ∈ t.events, e ∈ s.events ∨ Emitted s a.1 e := by
  unfold step at taken
  split at taken
  · cases taken
  · cases taken
    obtain ⟨message, w⟩ := a
    cases message with
    | query payload => exact emitted_handleQuery
    | execute payload => exact emitted_handleExecute
    | parse payload => exact (moves_handleParse (L := emitting s (.parse payload))).emitted
    | bind payload => exact (moves_handleBind (L := emitting s (.bind payload))).emitted
    | close payload => exact (moves_handleClose (L := emitting s (.close payload))).emitted
    | describe | sync | terminate | other => exact fun _ mem => .inl mem

end TQDBProxy.Postgres
