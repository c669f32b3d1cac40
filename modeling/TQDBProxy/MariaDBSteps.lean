import TQDBProxy.MariaDBMoves

/-! The events of one step of a MariaDB client connection, in terms of the state
before the step: what may be served or stored, enqueued or written, and under
which transaction flag and database. -/

namespace TQDBProxy.MariaDB

open TQDBProxy.Parser SqlTokens

def inputParsed (s : Session) : Input → Option ParsedQuery
  | .nextStatement => s.pending.head?.map (statementParsed · s.original)
  | .stmtExecute data => preparedFor s data
  | _ => none

def cacheableInput (s : Session) (input : Input) : Bool :=
  (inputParsed s input).any (·.isCacheable)

def batchableInput (s : Session) (input : Input) : Bool :=
  (inputParsed s input).any (·.isBatchable)

def qualifiedDatabase (s : Session) (parsed : ParsedQuery) : GoString :=
  if parsed.db = [] then s.db else parsed.db

def inputDatabase (s : Session) : Input → GoString
  | .nextStatement =>
    match s.pending with
    | query :: _ => qualifiedDatabase s (statementParsed query s.original)
    | [] => s.db
  | _ => s.db

/-- The batch key; that of a text is made of the statement without its hints. -/
def inputKey (s : Session) (input : Input) : GoString :=
  match input, inputParsed s input with
  | .nextStatement, some parsed => (parse parsed.query).getBatchKey
  | _, some parsed => parsed.getBatchKey
  | _, none => []

def Emitted (cfg : ProxyConfig) (s : Session) (input : Input) : Event → Prop
  | .write session route =>
    session = s.openSession ∧ batchableInput s input = true ∧
      (route = .manager → s.inTransaction = false) ∧ ∀ conn, route = .backend conn →
        inputHome cfg s input = true → s.backend.isSome = true → s.backend = some conn
  | .enqueued db key _ _ _ =>
    s.inTransaction = false ∧ batchableInput s input = true ∧ db = inputDatabase s input ∧
      key = inputKey s input
  | .served flag _ | .stored flag _ => flag = s.inTransaction ∧ cacheableInput s input = true
  | _ => True

def emitting (cfg : ProxyConfig) (s : Session) (input : Input) : Limits where
  stays := False
  silent := False
  emits := Emitted cfg s input
  plain := by
    intro e plain
    cases e <;> trivial

variable {cfg : ProxyConfig} {w : World} {s t : Session} {parsed : ParsedQuery}

theorem routeQualified_db (made : routeQualified cfg w parsed s = (none, t)) :
    t.db = qualifiedDatabase s parsed := by
  unfold routeQualified at made
  unfold qualifiedDatabase
  split at made
  · rename_i qualified
    rw [if_neg qualified.1]
    split at made
    · cases made
    · cases made
      rfl
  · rename_i plain
    cases made
    by_cases empty : parsed.db = []
    · rw [if_pos empty]
    · rw [if_neg empty]
      by_contra differs
      exact plain ⟨empty, fun same => differs same.symm⟩

/-- The connection of a statement that is routed home stays through the routing. -/
def routed (cfg : ProxyConfig) (s : Session) (parsed : ParsedQuery) : Limits where
  stays := statementHome cfg s parsed = true ∧ s.backend.isSome = true
  silent := False
  emits := fun _ => True
  plain := fun _ _ => trivial

theorem moves_routed : Moves (routed cfg s parsed) s (routeQualified cfg w parsed s).2 := by
  refine moves_routeQualified fun home => ⟨?_, home.2⟩
  have near := home.1
  simp only [statementHome, Bool.and_eq_true, Bool.or_eq_true, decide_eq_true_eq, or_assoc] at near
  exact near.1

theorem routesHome_of_stays {db : GoString} (addr : t.backendAddr = s.backendAddr)
    (pool : t.backendPool = s.backendPool) : routesHome cfg t db = routesHome cfg s db := by
  simp only [routesHome, addr, pool]

theorem atPrimary_of_stays (addr : t.backendAddr = s.backendAddr)
    (pool : t.backendPool = s.backendPool) : atPrimary cfg t = atPrimary cfg s := by
  simp only [atPrimary, addr, pool]

theorem emitted_handleKind {L : Limits} {arrived : Option Nat} (leaves : ¬ L.stays)
    (loud : ¬ L.silent) (managed : s.inTransaction = false → parsed.isBatchable = true →
      L.emits (.write arrived .manager))
    (enqueued : s.inTransaction = false → parsed.isBatchable = true →
      L.emits (.enqueued s.db (parse parsed.query).getBatchKey parsed.query [] parsed.batchMs))
    (written : statementKind parsed.query = .other → parsed.isBatchable = true → ∀ conn,
      (atPrimary cfg s = true → s.backend.isSome = true → s.backend = some conn) →
        L.emits (.write arrived (.backend conn)))
    (cached : parsed.isCacheable = true → L.emits (.served s.inTransaction (.text parsed.query)) ∧
      L.emits (.stored s.inTransaction (.text parsed.query))) :
    ∀ e ∈ (handleKind cfg w parsed arrived s).2.events, e ∈ s.events ∨ L.emits e := by
  have exchanged : ∀ c, Moves L s (exchange w c s).2 := fun c =>
    moves_exchange (fun stays => absurd stays leaves) fun silent => absurd silent loud
  unfold handleKind
  split
  · exact (moves_handleUse (fun stays => absurd stays leaves) (fun stays => absurd stays leaves)
      fun silent => absurd silent loud).emitted
  · have moves := exchanged (.query (lit "BEGIN"))
    unfold handleBegin
    split <;> rename_i made <;> rw [made] at moves <;> exact moves.emitted
  · have moves := exchanged (.query (lit "COMMIT"))
    unfold handleCommit finishTransaction
    split <;> rename_i made <;> rw [made] at moves <;> exact moves.emitted
  · have moves := exchanged (.query (lit "ROLLBACK"))
    unfold handleRollback finishTransaction
    split <;> rename_i made <;> rw [made] at moves <;> exact moves.emitted
  · exact (moves_handleShowTQDBStatus (fun stays => absurd stays leaves)
      (fun stays => absurd stays leaves) fun silent => absurd silent loud).emitted
  · rename_i kind
    exact (moves_handleOther (fun stays => absurd stays leaves) (fun stays => absurd stays leaves)
      (fun stays => absurd stays leaves) (fun silent => absurd silent loud) managed enqueued
      (written kind) cached).emitted

theorem emitted_handleSingleQuery {L : Limits} {query : GoString} {original : ParsedQuery}
    (leaves : ¬ L.stays) (loud : ¬ L.silent) (known : statementParsed query original = parsed)
    (managed : s.inTransaction = false → parsed.isBatchable = true →
      L.emits (.write s.openSession .manager))
    (enqueued : s.inTransaction = false → parsed.isBatchable = true →
      L.emits (.enqueued (qualifiedDatabase s parsed) (parse parsed.query).getBatchKey
        parsed.query [] parsed.batchMs))
    (written : parsed.isBatchable = true → ∀ conn,
      (statementHome cfg s parsed = true → s.backend.isSome = true → s.backend = some conn) →
        L.emits (.write s.openSession (.backend conn)))
    (cached : parsed.isCacheable = true → L.emits (.served s.inTransaction (.text parsed.query)) ∧
      L.emits (.stored s.inTransaction (.text parsed.query))) :
    ∀ e ∈ (handleSingleQuery cfg w query original s).2.events, e ∈ s.events ∨ L.emits e := by
  have moves : Moves L s (routeQualified cfg w parsed s).2 :=
    moves_routeQualified fun stays => absurd stays leaves
  have anchored : Moves (routed cfg s parsed) s (routeQualified cfg w parsed s).2 := moves_routed
  unfold handleSingleQuery
  rw [known]
  dsimp only
  split
  · rename_i made
    rw [made] at moves
    exact moves.emitted
  · rename_i u made
    have db := routeQualified_db made
    rw [made] at moves anchored
    have later : ∀ e ∈ (handleKind cfg w parsed s.openSession u).2.events, e ∈ u.events ∨
        L.emits e := by
      apply emitted_handleKind leaves loud
      · rw [moves.flag]
        exact managed
      · rw [moves.flag, db]
        exact enqueued
      · intro kind batchable conn near
        refine written batchable conn fun home connected => ?_
        obtain ⟨backend, addr, pool⟩ := anchored.stays ⟨home, connected⟩
        rw [← backend]
        apply near
        · rw [atPrimary_of_stays addr pool]
          simp only [statementHome, kind, Bool.and_eq_true] at home
          exact home.2
        · rw [backend]
          exact connected
      · rw [moves.flag]
        exact cached
    intro e mem
    rcases later e mem with old | new
    · exact moves.emitted e old
    · exact .inr new

theorem emitted_nextStatement {query : GoString} {rest : List GoString}
    (waiting : s.pending = query :: rest) :
    ∀ e ∈ (nextStatement cfg w query rest s).events, e ∈ s.events ∨
      Emitted cfg s .nextStatement e := by
  have handled :
    ∀ e ∈ (handleSingleQuery cfg w query s.original { s with pending := rest }).2.events,
      e ∈ s.events ∨ Emitted cfg s .nextStatement e := by
    have known : ∀ test : ParsedQuery → Bool, test (statementParsed query s.original) = true →
        (inputParsed s .nextStatement).any test = true := by
      intro test passed
      simpa [inputParsed, waiting] using passed
    refine emitted_handleSingleQuery (L := emitting cfg s .nextStatement) id id rfl ?_ ?_ ?_ ?_
    · intro outside batchable
      exact ⟨rfl, known _ batchable, fun _ => outside, fun _ impossible => by cases impossible⟩
    · intro outside batchable
      refine ⟨outside, known _ batchable, ?_, ?_⟩
      · simp only [inputDatabase, waiting]
        rfl
      · simp [inputKey, inputParsed, waiting]
    · intro batchable conn near
      refine ⟨rfl, known _ batchable, fun impossible => (by cases impossible), ?_⟩
      intro conn' same home connected
      cases same
      simp only [inputHome, waiting] at home
      exact near home connected
    · intro cacheable
      exact ⟨⟨rfl, known _ cacheable⟩, ⟨rfl, known _ cacheable⟩⟩
  unfold nextStatement
  split <;> rename_i made <;> rw [made] at handled <;> exact handled

theorem emitted_dispatch {input : Input} :
    ∀ e ∈ (dispatch cfg w input s).2.events, e ∈ s.events ∨ Emitted cfg s input e := by
  cases input with
  | initDB dbName =>
    exact (moves_handleUse (L := emitting cfg s (.initDB dbName)) False.elim False.elim
      False.elim).emitted
  | stmtPrepare query =>
    exact (moves_handlePrepare (L := emitting cfg s (.stmtPrepare query)) False.elim).emitted
  | stmtExecute data =>
    refine (moves_handleExecute (L := emitting cfg s (.stmtExecute data)) False.elim False.elim
      False.elim ?_ ?_ ?_ ?_).emitted
    · intro outside batchable
      exact ⟨rfl, batchable, fun _ => outside, fun _ impossible => by cases impossible⟩
    · intro outside batchable _ _ found _
      exact ⟨outside, batchable, rfl, by simp [inputKey, inputParsed, found]⟩
    · intro batchable conn current
      refine ⟨rfl, batchable, fun impossible => (by cases impossible), ?_⟩
      intro conn' same _ _
      cases same
      exact current
    · intro cacheable key
      exact ⟨⟨rfl, cacheable⟩, ⟨rfl, cacheable⟩⟩
  | stmtClose data =>
    exact (moves_handleStmtClose (L := emitting cfg s (.stmtClose data)) False.elim).emitted
  | stmtReset data =>
    exact (moves_handleStmtReset (L := emitting cfg s (.stmtReset data)) False.elim).emitted
  | quit | fieldList | ping | query | nextStatement | other => exact fun _ mem => .inl mem

/-- Every new event of a step is one that the state before it explains. -/
theorem step_emitted {a : Input × World} (taken : step cfg s a = some t) :
    ∀ e ∈ t.events, e ∈ s.events ∨ Emitted cfg s a.1 e := by
  rcases step_cases taken with ⟨query, rest, waiting, next, rfl⟩ | ⟨text, rfl⟩ | rfl
  · rw [next]
    exact emitted_nextStatement waiting
  · exact fun _ mem => .inl mem
  · exact emitted_dispatch

end TQDBProxy.MariaDB
