import TQDBProxy.GuardedRuns
import TQDBProxy.PostgresSession

/-! Errors in the extended protocol of the PostgreSQL proxy. After an error the messages
up to the next Sync are to be passed over. The proxy reports the error and handles the
next message as if nothing had happened, with the portals that are still bound. -/

namespace TQDBProxy.Postgres

open GuardedRuns TQDBProxy.Parser

def handleDescribe (payload : List UInt8) (s : Session) : Option GoString :=
  match payload with
  | descType :: b :: rest =>
    match takeName (b :: rest) with
    | none => some (lit "malformed Describe message: no name terminator")
    | some (name, _) =>
      if descType = 83 then
        if (lookup name s.preparedStatements).isNone then
          some (lit "unknown prepared statement: " ++ name)
        else none
      else if descType = 80 then none
      else some (lit "unknown describe type: " ++ Utf8.encodeRune descType.toNat)
  | _ => some (lit "malformed Describe message: too short")

def errorResponse (w : World) (s : Session) : Message → Option GoString
  | .parse payload => (handleParse payload s).1
  | .bind payload => (handleBind payload s).1
  | .describe payload => handleDescribe payload s
  | .execute payload => (handleExecute w payload s).1
  | _ => none

def Message.silenced : Message → Bool
  | .parse _ | .bind _ | .execute _ => true
  | _ => false

def agree {α : Type} [DecidableEq α] (old new : List (GoString × α)) : Bool :=
  (old ++ new).all fun entry => lookup entry.1 old = lookup entry.1 new

def touches (s t : Session) : Bool :=
  !agree s.preparedStatements t.preparedStatements ||
    !agree s.portalStatements t.portalStatements || !agree s.boundParams t.boundParams ||
    s.events != t.events || s.panicked != t.panicked

/-- A session with whether an error has been reported since the last Sync, and the
messages that had an effect although one had. -/
structure Piped where
  session : Session
  failed : Bool := false
  lapses : List Message := []

def pipe (p : Piped) (a : Message × World) : Option Piped :=
  (step p.session a).map fun t =>
    { session := t
      failed := a.1 != .sync && (p.failed || (errorResponse a.2 p.session a.1).isSome)
      lapses :=
        if p.failed && a.1.silenced && touches p.session t then a.1 :: p.lapses else p.lapses }

def parsedStatement (payload : List UInt8) : Option (GoString × GoString) :=
  match takeName payload with
  | none => none
  | some (stmtName, rest) => (takeName rest).map fun (query, _) => (stmtName, query)

def boundPortal (s : Session) (payload : List UInt8) :
    Option (GoString × GoString × List (Option GoString)) :=
  match takeName payload with
  | none => none
  | some (portalName, rest) =>
    match takeName rest with
    | none => none
    | some (stmtName, rest) =>
      if (lookup stmtName s.preparedStatements).isNone then none
      else
        match bindParams rest with
        | .error _ => none
        | .ok params => some (portalName, stmtName, params)

def portalQuery (s : Session) (payload : List UInt8) : Option GoString :=
  match takeName payload with
  | none => none
  | some (portalName, _) => lookup (portalStatement s portalName) s.preparedStatements

/-- After an error a Parse or a Bind is refused or stores what is there already, and an
Execute finds no statement. -/
def keepsQuiet (p : Piped) (a : Message × World) : Bool :=
  !p.failed ||
    match a.1 with
    | .parse payload =>
      (parsedStatement payload).all fun (stmtName, query) =>
        lookup stmtName p.session.preparedStatements = some query
    | .bind payload =>
      (boundPortal p.session payload).all fun (portalName, stmtName, params) =>
        lookup portalName p.session.portalStatements = some stmtName &&
          lookup portalName p.session.boundParams = some params
    | .execute payload => (portalQuery p.session payload).isNone
    | _ => true

variable {w : World} {s : Session} {payload : List UInt8}

section Tables

variable {α : Type} {table : List (GoString × α)}

theorem lookup_cons (key name : GoString) (value : α) :
    lookup key ((name, value) :: table) = if name = key then some value else lookup key table := by
  unfold lookup
  by_cases same : name = key
  · simp [same]
  · simp [same]

variable [DecidableEq α]

theorem agree_self (table : List (GoString × α)) : agree table table = true := by
  simp [agree]

theorem agree_cons (name : GoString) (value : α) :
    agree table ((name, value) :: table) = decide (lookup name table = some value) := by
  rw [Bool.eq_iff_iff, decide_eq_true_iff]
  constructor
  · intro same
    have head := List.all_eq_true.mp same (name, value) (by simp)
    simpa [lookup_cons] using head
  · intro known
    refine List.all_eq_true.mpr fun entry _ => ?_
    rw [decide_eq_true_iff, lookup_cons]
    split
    · rename_i same
      rw [← same, known]
    · rfl

end Tables

theorem touches_self (s : Session) : touches s s = false := by
  simp [touches, agree_self]

theorem touches_handleParse : touches s (handleParse payload s).2 =
    !(parsedStatement payload).all fun (stmtName, query) =>
      lookup stmtName s.preparedStatements = some query := by
  unfold handleParse parsedStatement
  cases takeName payload with
  | none => exact touches_self s
  | some named =>
    obtain ⟨stmtName, rest⟩ := named
    dsimp only
    cases takeName rest with
    | none => exact touches_self s
    | some found => simp [touches, agree_self, agree_cons]

theorem touches_handleBind : touches s (handleBind payload s).2 =
    !(boundPortal s payload).all fun (portalName, stmtName, params) =>
      lookup portalName s.portalStatements = some stmtName &&
        lookup portalName s.boundParams = some params := by
  unfold handleBind boundPortal
  cases takeName payload with
  | none => exact touches_self s
  | some named =>
    obtain ⟨portalName, rest⟩ := named
    dsimp only
    cases takeName rest with
    | none => exact touches_self s
    | some found =>
      obtain ⟨stmtName, after⟩ := found
      dsimp only
      split
      · exact touches_self s
      · cases bindParams after with
        | error e => exact touches_self s
        | ok params => simp [touches, agree_self, agree_cons]

/-- The log of one session goes on from that of another with at least one event. -/
def Logs (s t : Session) : Prop := s.events.length < t.events.length

theorem Logs.touches {t : Session} (logs : Logs s t) : touches s t = true := by
  have differ : (s.events != t.events) = true := by
    rw [bne_iff_ne]
    intro same
    rw [Logs, same] at logs
    exact lt_irrefl _ logs
  simp [Postgres.touches, differ]

theorem length_selectBackend (parsed : ParsedQuery) :
    s.events.length ≤ (selectBackend w parsed s).2.2.events.length := by
  rcases selectBackend_session w parsed s with same | ⟨addr, same⟩
  · rw [same]
  · rw [same]
    exact Nat.le_succ s.events.length

theorem logs_executeQuery (parsed : ParsedQuery) (args : List Value) (key : Option CacheKey)
    (arrived : Option Nat) : Logs s (executeQuery w parsed args key arrived s).2 := by
  unfold Logs executeQuery
  have before := length_selectBackend (w := w) (s := s) parsed
  revert before
  rcases selectBackend w parsed s with ⟨conn, name, t⟩
  intro before
  have noted : t.events.length ≤ (noteWrite parsed arrived conn t).events.length := by
    unfold noteWrite
    split
    · simp [Session.note]
    · exact le_rfl
  have sent : s.events.length <
      (runQuery w conn parsed.query args (noteWrite parsed arrived conn t)).events.length :=
    Nat.lt_succ_of_le (before.trans noted)
  dsimp only
  cases w.failure with
  | none =>
    dsimp only
    split
    · exact sent
    · cases key with
      | none => exact sent
      | some key =>
        dsimp only [storeResult]
        split
        · exact sent.trans (Nat.lt_succ_self _)
        · exact sent
  | some e =>
    cases key with
    | none => exact sent
    | some key => exact sent.trans (Nat.lt_succ_self _)

theorem touches_executePortal (alive : s.panicked = false) (parsed : ParsedQuery)
    (params : List (Option GoString)) : touches s (executePortal w parsed params s).2 = true := by
  unfold executePortal
  dsimp only
  split
  · simp [touches, Session.crash, alive]
  · refine Logs.touches ?_
    split
    · rename_i served
      unfold servePrepared at served
      split at served <;> cases served <;> exact Nat.lt_succ_self _
    · split
      · unfold batchWrite Logs
        dsimp only
        split
        · exact Nat.lt_add_of_pos_right (Nat.zero_lt_two)
        · split <;> exact Nat.lt_add_of_pos_right (Nat.zero_lt_two)
      · exact logs_executeQuery _ _ _ _

theorem touches_handleExecute (alive : s.panicked = false) :
    touches s (handleExecute w payload s).2 = !(portalQuery s payload).isNone := by
  unfold handleExecute portalQuery
  cases takeName payload with
  | none => exact touches_self s
  | some named =>
    obtain ⟨portalName, rest⟩ := named
    dsimp only
    cases lookup (portalStatement s portalName) s.preparedStatements with
    | none => exact touches_self s
    | some query => exact touches_executePortal alive _ _

theorem step_handled {t : Session} {a : Message × World} (taken : step s a = some t) :
    s.panicked = false ∧ handleMessage a.2 a.1 s = t := by
  unfold step at taken
  split at taken <;> cases taken
  rename_i running
  exact ⟨by simp_all, rfl⟩

theorem pipe_lapses {p q : Piped} {a : Message × World} (taken : pipe p a = some q) :
    q.lapses = if keepsQuiet p a then p.lapses else a.1 :: p.lapses := by
  obtain ⟨t, stepped, rfl⟩ := Option.map_eq_some_iff.mp taken
  obtain ⟨message, w⟩ := a
  obtain ⟨alive, rfl⟩ := step_handled stepped
  have effect :
    (p.failed && message.silenced && touches p.session (handleMessage w message p.session)) =
      !keepsQuiet p (message, w) := by
    cases message with
    | parse payload => simp [handleMessage, touches_handleParse, keepsQuiet, Message.silenced]
    | bind payload => simp [handleMessage, touches_handleBind, keepsQuiet, Message.silenced]
    | execute payload =>
      simp [handleMessage, touches_handleExecute alive, keepsQuiet, Message.silenced]
    | _ => simp [keepsQuiet, Message.silenced]
  dsimp only
  rw [effect]
  cases keepsQuiet p (message, w) <;> rfl

/-- Between an error and the next Sync nothing is prepared, bound or executed exactly when
each of these messages is itself refused or stores what is there already. -/
theorem error_silences_until_sync_iff {s : Session} {p : Piped} (messages : List (Message × World))
    (run : replay pipe { session := s } messages = some p) :
    p.lapses = [] ↔ replay (checked pipe keepsQuiet) { session := s } messages = some p := by
  have one :
      ∀ p a q, pipe p a = some q → (q.lapses = [] ↔ p.lapses = [] ∧ keepsQuiet p a = true) := by
    intro p a q taken
    rw [pipe_lapses taken]
    cases keepsQuiet p a <;> simp
  simpa using replay_checked_iff one messages run

def preparing (stmtName text : String) : Message :=
  .parse (lit stmtName ++ [0] ++ lit text ++ [0, 0, 0])

def binding (stmtName value : String) : Message :=
  .bind ([0] ++ lit stmtName ++ [0, 0, 0, 0, 1, 0, 0, 0, UInt8.ofNat (lit value).length] ++
    lit value ++ [0, 0])

def executing : Message := .execute [0, 0, 0, 0, 0]

/-- The first execution is refused with the Bind before it; the one after the Sync runs. -/
def refusing : List Message :=
  [binding "remove" "7", executing, .sync, preparing "remove" "DELETE FROM t WHERE a = $1",
   binding "remove" "7", executing]

theorem error_silences_until_sync_refusing :
    ∃ p, replay pipe { session := client } (refusing.map (·, {})) = some p ∧
      p.session.events.length = 2 ∧ p.lapses = [] ∧
      replay (checked pipe keepsQuiet) { session := client } (refusing.map (·, {})) = some p := by
  have replayed : (replay pipe { session := client } (refusing.map (·, {}))).map
      (fun p => (p.session.events.length, p.lapses)) = some (2, []) := by decide
  obtain ⟨p, run, ends⟩ := Option.map_eq_some_iff.mp replayed
  obtain ⟨events, clean⟩ := Prod.mk.inj ends
  exact ⟨p, run, events, clean, (error_silences_until_sync_iff _ run).mp clean⟩

/-- The statement that is bound from before runs after a Bind that failed. -/
theorem failed_bind_runs_old_portal :
    ((replay pipe { session := client }
      ([preparing "remove" "DELETE FROM t WHERE a = $1", binding "remove" "7", .sync,
        binding "removed" "8", executing].map (·, {}))).map
      fun p => (p.lapses, p.session.events.head?)) =
    some ([executing],
      some (.sent none 0 (.queryArgs (lit "DELETE FROM t WHERE a = $1") [.string (lit "7")]))) := by
  decide

end TQDBProxy.Postgres
