import Mathlib.Logic.Function.Basic
import TQDBProxy.PostgresRecovery

/-! Portals of the PostgreSQL proxy. A portal is to stand for the statement text and the
values that its last Bind fixed, until it is closed. The proxy looks the statement, its
text and the values up again when the portal is executed. -/

namespace TQDBProxy.Postgres

open GuardedRuns TQDBProxy.Parser

/-- What a Bind fixes, with the name of the statement it was taken from. -/
structure Binding where
  stmtName : GoString
  text : GoString
  params : List (Option GoString)
  deriving DecidableEq

def closedPortal : List UInt8 → Option GoString
  | closeType :: b :: rest => if closeType = 80 then some (closeName (b :: rest)) else none
  | _ => none

/-- What portals stand for after a message: a Bind that succeeds fixes the text its
statement has at the time, and a Close ends the portal. -/
def rebind (s : Session) (bindings : GoString → Option Binding) :
    Message → GoString → Option Binding
  | .bind payload =>
    match boundPortal s payload with
    | none => bindings
    | some (portalName, stmtName, params) =>
      Function.update bindings portalName
        ((lookup stmtName s.preparedStatements).map fun text => ⟨stmtName, text, params⟩)
  | .close payload =>
    match closedPortal payload with
    | none => bindings
    | some portalName => Function.update bindings portalName none
  | _ => bindings

def portalRun (s : Session) (portalName : GoString) : Option (GoString × List (Option GoString)) :=
  (lookup (portalStatement s portalName) s.preparedStatements).map (·, portalParams s portalName)

structure Execution where
  fixed : Option (GoString × List (Option GoString))
  ran : Option (GoString × List (Option GoString))
  deriving DecidableEq

def execution (s : Session) (bindings : GoString → Option Binding) : Message → Option Execution
  | .execute payload =>
    (takeName payload).map fun (portalName, _) =>
      ⟨(bindings portalName).map fun b => (b.text, b.params), portalRun s portalName⟩
  | _ => none

structure Watched where
  session : Session
  bindings : GoString → Option Binding := fun _ => none
  executions : List Execution := []

def watch (v : Watched) (a : Message × World) : Option Watched :=
  (step v.session a).map fun t =>
    { session := t
      bindings := rebind v.session v.bindings a.1
      executions := (execution v.session v.bindings a.1).toList ++ v.executions }

/-- The statement of an executed portal still has the text it had at the Bind; where the
portal stands for nothing, there is no statement to run. -/
def boundText (v : Watched) (a : Message × World) : Bool :=
  match a.1 with
  | .execute payload =>
    (takeName payload).all fun (portalName, _) =>
      match v.bindings portalName with
      | some b => lookup b.stmtName v.session.preparedStatements = some b.text
      | none => lookup (portalStatement v.session portalName) v.session.preparedStatements = none
  | _ => true

variable {w : World} {s t : Session} {payload : List UInt8}

/-! ### The tables -/

def Session.tables (s : Session) :
    List (GoString × GoString) × List (GoString × GoString) × List
      (GoString × List (Option GoString)) :=
  (s.preparedStatements, s.portalStatements, s.boundParams)

theorem tables_selectBackend (parsed : ParsedQuery) :
    (selectBackend w parsed s).2.2.tables = s.tables := by
  rcases selectBackend_session w parsed s with same | ⟨addr, same⟩
  · rw [same]
  · rw [same]
    rfl

theorem tables_executeQuery (parsed : ParsedQuery) (args : List Value) (key : Option CacheKey)
    (arrived : Option Nat) : (executeQuery w parsed args key arrived s).2.tables = s.tables := by
  have selected := tables_selectBackend (w := w) (s := s) parsed
  unfold executeQuery
  revert selected
  rcases selectBackend w parsed s with ⟨conn, name, t⟩
  intro selected
  have ran : (runQuery w conn parsed.query args (noteWrite parsed arrived conn t)).tables =
      s.tables := by
    unfold noteWrite
    split <;> exact selected
  dsimp only
  cases w.failure with
  | none =>
    dsimp only
    split
    · exact ran
    · cases key with
      | none => exact ran
      | some key =>
        dsimp only [storeResult]
        split <;> exact ran
  | some e => cases key <;> exact ran

theorem tables_batchWrite (parsed : ParsedQuery) (params : List Value) (arrived : Option Nat) :
    (batchWrite w parsed params arrived s).2.tables = s.tables := by
  unfold batchWrite
  dsimp only
  split
  · rfl
  · split <;> rfl

theorem tables_executePortal (parsed : ParsedQuery) (params : List (Option GoString)) :
    (executePortal w parsed params s).2.tables = s.tables := by
  unfold executePortal
  dsimp only
  split
  · rfl
  · split
    · rename_i served
      unfold servePrepared at served
      split at served <;> cases served <;> rfl
    · split
      · exact tables_batchWrite _ _ _
      · exact tables_executeQuery _ _ _ _

theorem tables_handleExecute : (handleExecute w payload s).2.tables = s.tables := by
  unfold handleExecute
  split
  · rfl
  · split
    · rfl
    · exact tables_executePortal _ _

theorem tables_handleText (parsed : ParsedQuery) (arrived : Option Nat) :
    (handleText w parsed arrived s).2.tables = s.tables := by
  unfold handleText
  split
  · rfl
  · split
    · rename_i served
      unfold serveCached at served
      split at served
      · cases served
      · split at served
        · cases served
          rfl
        · cases served
          rfl
        · split at served <;> cases served
          rfl
    · split
      · exact tables_batchWrite _ _ _
      · exact tables_executeQuery _ _ _ _

theorem tables_handleQuery : (handleQuery w payload s).2.tables = s.tables := by
  unfold handleQuery
  dsimp only
  split
  · rfl
  · rw [tables_handleText]
    unfold trackTransaction
    split
    · rfl
    · split <;> rfl

theorem lookup_filter {α : Type} {table : List (GoString × α)} (key name : GoString) :
    lookup key (table.filter (·.1 != name)) = if key = name then none else lookup key table := by
  induction table with
  | nil => simp [lookup]
  | cons entry rest ih =>
    obtain ⟨found, value⟩ := entry
    by_cases same : found = name
    · subst found
      simp only [List.filter_cons, bne_self_eq_false, Bool.false_eq_true, if_false, ih, lookup_cons]
      by_cases eq : key = name
      · simp [eq]
      · simp [eq, Ne.symm eq]
    · have keep : (found != name) = true := by simpa using same
      simp only [List.filter_cons, keep, if_true, lookup_cons, ih]
      by_cases eq : found = key
      · simp [← eq, same]
      · simp [eq]

theorem handleBind_bound : (handleBind payload s).2 =
    match boundPortal s payload with
    | none => s
    | some (portalName, stmtName, params) =>
      { s with
        portalStatements := (portalName, stmtName) :: s.portalStatements
        boundParams := (portalName, params) :: s.boundParams } := by
  unfold handleBind boundPortal
  cases takeName payload with
  | none => rfl
  | some named =>
    obtain ⟨portalName, rest⟩ := named
    dsimp only
    cases takeName rest with
    | none => rfl
    | some found =>
      obtain ⟨stmtName, after⟩ := found
      dsimp only
      split
      · rfl
      · cases bindParams after <;> rfl

theorem portalStatements_handleClose :
    (handleClose payload s).portalStatements = s.portalStatements := by
  unfold handleClose
  split
  · dsimp only
    split
    · rfl
    · split <;> rfl
  · rfl

theorem boundParams_handleClose : (handleClose payload s).boundParams =
    match closedPortal payload with
    | none => s.boundParams
    | some portalName => s.boundParams.filter (·.1 != portalName) := by
  rcases payload with _ | ⟨closeType, _ | ⟨b, rest⟩⟩
  · rfl
  · rfl
  · by_cases portal : closeType = 80
    · subst closeType
      rfl
    · simp only [handleClose, closedPortal, if_neg portal]
      split <;> rfl

/-! ### What portals stand for -/

/-- The tables of portals and of values have what every portal stands for. -/
def Keeps (s : Session) (bindings : GoString → Option Binding) : Prop :=
  ∀ portalName b, bindings portalName = some b →
    lookup portalName s.portalStatements = some b.stmtName ∧
      lookup portalName s.boundParams = some b.params

theorem Keeps.congr {bindings : GoString → Option Binding} (keeps : Keeps s bindings)
    (portals : t.portalStatements = s.portalStatements) (params : t.boundParams = s.boundParams) :
    Keeps t bindings := by
  intro portalName b stands
  rw [portals, params]
  exact keeps portalName b stands

theorem keeps_handleBind {bindings : GoString → Option Binding} (keeps : Keeps s bindings) :
    Keeps (handleBind payload s).2 (rebind s bindings (.bind payload)) := by
  rw [handleBind_bound]
  simp only [rebind]
  cases boundPortal s payload with
  | none => exact keeps
  | some bound =>
    obtain ⟨portalName, stmtName, params⟩ := bound
    intro name b stands
    dsimp only at stands ⊢
    rw [lookup_cons, lookup_cons]
    by_cases same : name = portalName
    · subst name
      rw [Function.update_self] at stands
      obtain ⟨text, -, rfl⟩ := Option.map_eq_some_iff.mp stands
      simp
    · simp only [Ne.symm same, if_false]
      exact keeps name b (by simpa [same] using stands)

theorem keeps_handleClose {bindings : GoString → Option Binding} (keeps : Keeps s bindings) :
    Keeps (handleClose payload s) (rebind s bindings (.close payload)) := by
  intro name b stands
  rw [portalStatements_handleClose, boundParams_handleClose]
  simp only [rebind] at stands
  cases closed : closedPortal payload with
  | none =>
    rw [closed] at stands
    exact keeps name b stands
  | some portalName =>
    rw [closed] at stands
    have other : name ≠ portalName := by
      rintro rfl
      simp at stands
    dsimp only
    rw [lookup_filter, if_neg other]
    exact keeps name b (by simpa [other] using stands)

theorem keeps_handleMessage {bindings : GoString → Option Binding} (message : Message)
    (keeps : Keeps s bindings) :
    Keeps (handleMessage w message s) (rebind s bindings message) := by
  have untouched {t : Session} (same : t.tables = s.tables) : Keeps t bindings := by
    simp only [Session.tables, Prod.mk.injEq] at same
    exact keeps.congr same.2.1 same.2.2
  cases message with
  | query payload => exact untouched tables_handleQuery
  | execute payload => exact untouched tables_handleExecute
  | parse payload =>
    refine keeps.congr ?_ ?_ <;>
    · simp only [handleMessage, handleParse]
      split
      · rfl
      · split <;> rfl
  | bind payload => exact keeps_handleBind keeps
  | close payload => exact keeps_handleClose keeps
  | terminate => exact keeps.congr rfl rfl
  | describe | sync | other => exact keeps

theorem keeps_watch {v u : Watched} {a : Message × World} (keeps : Keeps v.session v.bindings)
    (taken : watch v a = some u) : Keeps u.session u.bindings := by
  obtain ⟨t, stepped, rfl⟩ := Option.map_eq_some_iff.mp taken
  rw [← (step_handled stepped).2]
  exact keeps_handleMessage a.1 keeps

theorem portalRun_iff {bindings : GoString → Option Binding} (keeps : Keeps s bindings)
    (portalName : GoString) :
    portalRun s portalName = (bindings portalName).map (fun b => (b.text, b.params)) ↔
      (match bindings portalName with
      | some b => lookup b.stmtName s.preparedStatements = some b.text
      | none => lookup (portalStatement s portalName) s.preparedStatements = none) := by
  unfold portalRun
  cases stands : bindings portalName with
  | none => simp
  | some b =>
    obtain ⟨statement, params⟩ := keeps portalName b stands
    simp [portalStatement, portalParams, statement, params]

theorem watch_executions {v u : Watched} {a : Message × World} (keeps : Keeps v.session v.bindings)
    (taken : watch v a = some u) :
    (∀ e ∈ u.executions, e.ran = e.fixed) ↔ (∀ e ∈ v.executions, e.ran = e.fixed) ∧
      boundText v a = true := by
  obtain ⟨t, -, rfl⟩ := Option.map_eq_some_iff.mp taken
  obtain ⟨message, w⟩ := a
  cases message with
  | execute payload =>
    simp only [execution, boundText]
    cases takeName payload with
    | none => simp
    | some named =>
      have agrees := portalRun_iff keeps named.1
      cases stands : v.bindings named.1 <;> simp_all [and_comm]
  | _ => simp [execution, boundText]

def closingStatement (stmtName : String) : Message := .close ([83] ++ lit stmtName ++ [0])

def closingPortal (portalName : String) : Message := .close ([80] ++ lit portalName ++ [0])

/-- The statement is bound, run and closed with its portal; the last Execute is refused. -/
def tidy : List Message :=
  [preparing "remove" "DELETE FROM t WHERE a = $1", binding "remove" "7", executing,
   closingPortal "", closingStatement "remove", executing]

end TQDBProxy.Postgres
