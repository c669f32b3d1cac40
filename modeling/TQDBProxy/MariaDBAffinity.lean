import TQDBProxy.GuardedRuns
import TQDBProxy.MariaDBSteps

/-! A transaction of a MariaDB client should stay on one backend connection:
the one on which the acknowledged BEGIN was executed. The proxy opens another
connection whenever routing asks for a different address, also inside a
transaction, and BEGIN uses whatever connection is current. -/

namespace TQDBProxy.MariaDB

open GuardedRuns TQDBProxy.Parser

def anchored (s : Session) : Limits where
  stays := s.inTransaction = true
  silent := False
  emits := fun _ => True
  plain := fun _ _ => trivial

variable {cfg : ProxyConfig} {w : World} {s t : Session} {parsed : ParsedQuery}

structure Affine (s : Session) : Prop where
  status : s.statusInTrans = s.inTransaction
  outside : s.inTransaction = false → s.begun = none
  inside : s.inTransaction = true → s.backend.isSome = true ∧ s.begun = s.backend
  sent : ∀ k conn c, .sent (some k) conn c ∈ s.events → conn = k

theorem Affine.moves (affine : Affine s) (moves : Moves (anchored s) s t) : Affine t := by
  constructor
  · rw [moves.status, moves.flag, affine.status]
  · rw [moves.flag, moves.begun]
    exact affine.outside
  · intro begun
    rw [moves.flag] at begun
    rw [moves.begun, (moves.stays begun).1]
    exact affine.inside begun
  · intro k conn c mem
    rcases moves.sent (some k) conn c mem with old | ⟨tag, current⟩
    · exact affine.sent k conn c old
    · have begun : s.inTransaction = true := by
        by_contra ended
        rw [affine.outside (by simpa using ended)] at tag
        cases tag
      rw [(affine.inside begun).2, current begun] at tag
      exact (Option.some.inj tag).symm

theorem affine_handleBegin (affine : Affine s) (alive : s.inTransaction = true →
    w.reply.isSome = true) :
    Affine (handleBegin w s).2 := by
  have exchanged := affine.moves (moves_exchange (c := .query (lit "BEGIN")) alive False.elim)
  unfold handleBegin
  split
  · rename_i made
    rw [made] at exchanged
    exact exchanged
  · rename_i made
    obtain ⟨same, some⟩ := exchange_alive made
    rw [made] at exchanged
    refine ⟨rfl, ?_, ?_, exchanged.sent⟩
    · intro impossible
      cases impossible
    · intro _
      rw [← same] at some
      exact ⟨some, rfl⟩

theorem affine_finishTransaction {text : String} (affine : Affine s)
    (alive : s.inTransaction = true → w.reply.isSome = true) :
    Affine (finishTransaction text w s).2 := by
  have exchanged := affine.moves (moves_exchange (c := .query (lit text)) alive False.elim)
  unfold finishTransaction
  split
  · rename_i made
    rw [made] at exchanged
    exact exchanged
  · rename_i made
    rw [made] at exchanged
    refine ⟨rfl, fun _ => rfl, ?_, exchanged.sent⟩
    intro impossible
    cases impossible

def World.calm (w : World) : Bool := w.reply.isSome && w.infile != .backendFails && w.more

/-- Inside a transaction a step neither routes away nor loses the connection. -/
def keepsConnection (cfg : ProxyConfig) (s : Session) (a : Input × World) : Bool :=
  !s.inTransaction || (inputHome cfg s a.1 && a.2.calm)

theorem calm_parts (calm : w.calm = true) :
    w.reply.isSome = true ∧ w.infile ≠ .backendFails ∧ w.more = true := by
  simpa [World.calm, and_assoc] using calm

theorem affine_handleKind {arrived : Option Nat} (affine : Affine s)
    (home : s.inTransaction = true → w.calm = true ∧
      match statementKind parsed.query with
      | .use dbName => routesHome cfg s dbName = true
      | .status => routesHome cfg s [] = true
      | .begin | .commit | .rollback => True
      | .other => atPrimary cfg s = true) :
    Affine (handleKind cfg w parsed arrived s).2 := by
  have alive : s.inTransaction = true → w.reply.isSome = true :=
    fun inside => (calm_parts (home inside).1).1
  unfold handleKind
  split <;> rename_i kind <;> rw [kind] at home
  · exact affine.moves (moves_handleUse alive
      (fun inside => ⟨(home inside).2, (affine.inside inside).1⟩) False.elim)
  · exact affine_handleBegin affine alive
  · exact affine_finishTransaction affine alive
  · exact affine_finishTransaction affine alive
  · exact affine.moves (moves_handleShowTQDBStatus alive
      (fun inside => ⟨(home inside).2, (affine.inside inside).1⟩) False.elim)
  · refine affine.moves (moves_handleOther id ?_ ?_ False.elim (fun _ _ => trivial)
      (fun _ _ => trivial) (fun _ _ _ => trivial) fun _ => ⟨trivial, trivial⟩)
    · intro inside
      obtain ⟨reply, infile, -⟩ := calm_parts (home inside).1
      exact ⟨reply, infile⟩
    · intro inside
      exact ⟨(home inside).2, (affine.inside inside).1, by rw [affine.status, inside]⟩

theorem affine_handleSingleQuery {query : GoString} {original : ParsedQuery} (affine : Affine s)
    (home : s.inTransaction = true →
      statementHome cfg s (statementParsed query original) = true ∧ w.calm = true) :
    Affine (handleSingleQuery cfg w query original s).2 := by
  unfold handleSingleQuery
  dsimp only
  generalize statementParsed query original = parsed at home ⊢
  have routed : Moves (anchored s) s (routeQualified cfg w parsed s).2 := by
    refine moves_routeQualified fun inside => ⟨?_, (affine.inside inside).1⟩
    have near := (home inside).1
    simp only [statementHome, Bool.and_eq_true, Bool.or_eq_true, decide_eq_true_eq,
      or_assoc] at near
    exact near.1
  split
  · rename_i made
    rw [made] at routed
    exact affine.moves routed
  · rename_i made
    rw [made] at routed
    refine affine_handleKind (affine.moves routed) fun inside => ?_
    rw [routed.flag] at inside
    obtain ⟨-, addr, pool⟩ := routed.stays inside
    obtain ⟨near, calm⟩ := home inside
    simp only [statementHome, Bool.and_eq_true] at near
    refine ⟨calm, ?_⟩
    have second := near.2
    split <;> rename_i kind <;> rw [kind] at second
    · rw [routesHome_of_stays addr pool]
      exact second
    · rw [routesHome_of_stays addr pool]
      exact second
    · trivial
    · trivial
    · trivial
    · rw [atPrimary_of_stays addr pool]
      exact second

theorem affine_dispatch {input : Input} (affine : Affine s)
    (home : s.inTransaction = true → inputHome cfg s input = true ∧ w.calm = true) :
    Affine (dispatch cfg w input s).2 := by
  have alive : s.inTransaction = true → w.reply.isSome = true :=
    fun inside => (calm_parts (home inside).2).1
  have transfer : s.inTransaction = true → w.reply.isSome = true ∧ w.infile ≠ .backendFails := by
    intro inside
    obtain ⟨reply, infile, -⟩ := calm_parts (home inside).2
    exact ⟨reply, infile⟩
  cases input with
  | initDB dbName =>
    exact affine.moves (moves_handleUse alive
      (fun inside => ⟨(home inside).1, (affine.inside inside).1⟩) False.elim)
  | stmtPrepare query =>
    refine affine.moves (moves_handlePrepare fun inside => ?_)
    obtain ⟨reply, -, more⟩ := calm_parts (home inside).2
    exact ⟨reply, more⟩
  | stmtExecute data =>
    exact affine.moves (moves_handleExecute id transfer False.elim (fun _ _ => trivial)
      (fun _ _ _ _ _ _ => trivial) (fun _ _ _ => trivial) fun _ _ => ⟨trivial, trivial⟩)
  | stmtClose data => exact affine.moves (moves_handleStmtClose alive)
  | stmtReset data => exact affine.moves (moves_handleStmtReset alive)
  | quit | fieldList | ping | query | nextStatement | other => exact affine

theorem affine_nextStatement {query : GoString} {rest : List GoString} (affine : Affine s)
    (home : s.inTransaction = true →
      statementHome cfg s (statementParsed query s.original) = true ∧ w.calm = true) :
    Affine (nextStatement cfg w query rest s) := by
  have taken : Affine { s with pending := rest } :=
    affine.moves ((moves_refl _ s).congr rfl)
  have handled : Affine (handleSingleQuery cfg w query s.original { s with pending := rest }).2 :=
    affine_handleSingleQuery taken home
  unfold nextStatement
  split <;> rename_i made <;> rw [made] at handled
  · exact handled.moves ((moves_refl _ _).congr rfl)
  · exact handled

theorem affine_step {a : Input × World} (affine : Affine s) (guard : keepsConnection cfg s a = true)
    (taken : step cfg s a = some t) : Affine t := by
  have home : s.inTransaction = true → inputHome cfg s a.1 = true ∧ a.2.calm = true := by
    intro inside
    simpa [keepsConnection, inside] using guard
  rcases step_cases taken with ⟨query, rest, waiting, next, rfl⟩ | ⟨text, rfl⟩ | rfl
  · refine affine_nextStatement affine fun inside => ?_
    simpa [inputHome, next, waiting] using home inside
  · exact affine.moves ((moves_refl _ s).congr rfl)
  · exact affine_dispatch affine home

theorem affine_handleConnection {db : GoString} (connected : handleConnection cfg w db = some s) :
    Affine s := by
  obtain ⟨pool, -, start⟩ := handleConnection_cases connected
  have affine : Affine (greeted cfg pool db) :=
    ⟨rfl, fun _ => rfl, by simp [greeted], by simp [greeted]⟩
  rcases start with ⟨-, rfl⟩ | ⟨-, rfl⟩
  · exact affine
  · exact affine.moves (moves_exchange (by simp [anchored, greeted]) False.elim)

theorem transaction_affinity {cfg : ProxyConfig} {w : World} {db : GoString} {init s : Session}
    (connected : handleConnection cfg w db = some init)
    (run : Reach (step cfg) (fun s a => keepsConnection cfg s a = true) init s) :
    (∀ k conn c, .sent (some k) conn c ∈ s.events → conn = k) ∧
      (s.inTransaction = true → s.backend.isSome = true ∧ s.begun = s.backend) := by
  have affine : Affine s :=
    run.invariant (affine_handleConnection connected) fun _ _ _ => affine_step
  exact ⟨affine.sent, affine.inside⟩

def insertText : GoString := lit "INSERT INTO t VALUES (1)"

theorem transaction_affinity_plain :
    ∃ s : Session, .sent (some 0) 0 (.query insertText) ∈ s.events ∧
      .sent (some 0) 0 (.query (lit "COMMIT")) ∈ s.events ∧
      (∀ k conn c, .sent (some k) conn c ∈ s.events → conn = k) ∧
      (s.inTransaction = true → s.backend.isSome = true ∧ s.begun = s.backend) := by
  obtain ⟨s, reach, seen⟩ := checked_of_test (step replicated) (keepsConnection replicated) client
    (sending ["BEGIN", "INSERT INTO t VALUES (1)", "COMMIT"])
    (fun s => .sent (some 0) 0 (.query insertText) ∈ s.events &&
      .sent (some 0) 0 (.query (lit "COMMIT")) ∈ s.events) (by decide)
  simp only [Bool.and_eq_true, decide_eq_true_eq] at seen
  exact ⟨s, seen.1, seen.2, transaction_affinity client_connected reach⟩

/-- BEGIN is executed on the replica that answered a cached query; the next
statement goes to a new connection to the primary. -/
theorem transaction_leaves_replica :
    handleConnection replicated {} [] = some client ∧
      ∃ s, Reach (step replicated) free client s ∧
        .sent (some 1) 2 (.query insertText) ∈ s.events := by
  refine ⟨client_connected, ?_⟩
  obtain ⟨s, reach, seen⟩ := free_of_test (step replicated) client
    (sending ["/* ttl:60 */ SELECT a FROM t", "BEGIN", "INSERT INTO t VALUES (1)"])
    (fun s => .sent (some 1) 2 (.query insertText) ∈ s.events) (by decide)
  exact ⟨s, reach, by simpa using seen⟩

end TQDBProxy.MariaDB
