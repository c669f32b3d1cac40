import TQDBProxy.GuardedRuns
import TQDBProxy.MariaDBSends

/-! A MariaDB client connection whose backend connection was lost. Queries and USE
dial a new one before they send anything; the transaction statements and the
prepared-statement commands write to the connection they have, and without one
the proxy panics. -/

namespace TQDBProxy.MariaDB

open GuardedRuns TQDBProxy.Parser

variable {cfg : ProxyConfig} {w : World} {s t u : Session} {input : Input} {c : Command}
  {parsed : ParsedQuery}

def Pooled (cfg : ProxyConfig) (s : Session) : Prop := (cfg.pools s.backendPool).isSome = true

theorem pooled_resetBackend : s.resetBackend.backendPool = s.backendPool := by
  unfold Session.resetBackend Session.closeBackend
  split <;> rfl

theorem wired_pooled : Wired (Pooled cfg) where
  congr := by
    intro s t pooled same
    rw [Pooled, (same_core same).pool]
    exact pooled
  lost := by
    intro s _ pooled
    rw [Pooled, pooled_resetBackend]
    exact pooled
  mislabel := fun _ pooled => pooled
  crash := fun _ pooled => pooled
  record := fun _ _ _ pooled => pooled

theorem pooled_exchange (pooled : Pooled cfg s) : Pooled cfg (exchange w c s).2 := by
  refine wired_pooled.exchange (fun _ => pooled) (fun conn _ _ => ?_) fun conn _ _ => pooled
  rw [Pooled, pooled_resetBackend]
  exact pooled

theorem Connects.pooled {addr name pool : GoString} (connects : Connects w addr name pool s t)
    (pooled : Pooled cfg s) (target : (cfg.pools pool).isSome = true) : Pooled cfg t := by
  cases connects with
  | current _ _ core => exact wired_pooled.congr s t pooled core
  | dialled _ core =>
    rw [Pooled, (switched core).pool]
    exact target

theorem Routes.pooled {db : GoString} (routes : Routes cfg w db s t) (pooled : Pooled cfg s) :
    Pooled cfg t := by
  cases routes with
  | here _ _ _ _ core => exact wired_pooled.congr s t pooled core
  | there pool found connects => exact connects.pooled pooled (by rw [found]; rfl)

theorem Qualifies.pooled (qualifies : Qualifies cfg w parsed s t) (pooled : Pooled cfg s) :
    Pooled cfg t := by
  cases qualifies with
  | plain _ core => exact wired_pooled.congr s t pooled core
  | shard u _ _ routes core =>
    refine wired_pooled.congr _ t ?_ core
    exact routes.pooled pooled

theorem StatementSends.pooled (sends : StatementSends cfg w parsed s c u) (pooled : Pooled cfg s) :
    Pooled cfg u := by
  cases sends with
  | use _ routes core =>
    refine wired_pooled.congr _ u ?_ core
    exact routes.pooled pooled
  | control _ => exact pooled
  | status _ routes => exact routes.pooled pooled
  | execute _ _ _ connects => exact connects.pooled pooled pooled

theorem Sends.pooled (sends : Sends cfg w s input c u) (pooled : Pooled cfg s) : Pooled cfg u := by
  cases sends with
  | initDB routes core =>
    refine wired_pooled.congr _ u ?_ core
    exact routes.pooled pooled
  | statement _ qualifies sends => exact sends.pooled (qualifies.pooled pooled)
  | execute _ core => exact wired_pooled.congr s u pooled core
  | close =>
    unfold forgetStatement
    split <;> exact pooled
  | prepare | reset => exact pooled

theorem pooled_step {a : Input × World} (pooled : Pooled cfg s) (taken : step cfg s a = some t) :
    Pooled cfg t := by
  obtain ⟨input, w⟩ := a
  exact wired_pooled.step pooled (fun _ _ _ _ _ qualifies => qualifies.pooled pooled)
    (fun _ _ sends => pooled_exchange (sends.pooled pooled)) taken

theorem pooled_handleConnection {db : GoString} (connected : handleConnection cfg w db = some s) :
    Pooled cfg s := by
  obtain ⟨pool, found, start⟩ := handleConnection_cases connected
  have initial : Pooled cfg (greeted cfg pool db) := Option.isSome_of_eq_some found
  rcases start with ⟨-, rfl⟩ | ⟨-, rfl⟩
  · exact initial
  · exact pooled_exchange initial

def usesBackend (s : Session) : Input → Bool
  | .nextStatement =>
    match s.pending with
    | query :: _ => (controlText (statementKind (statementParsed query s.original).query)).isSome
    | [] => false
  | .stmtExecute data => (preparedFor s data).isSome
  | .stmtPrepare _ | .stmtClose _ | .stmtReset _ => true
  | _ => false

/-- Without a connection only commands come that dial one. -/
def reconnects (s : Session) (a : Input × World) : Bool := s.backend.isSome || !usesBackend s a.1

def PanicsConnected (s : Session) : Prop :=
  s.panicked = true → s.mislabelled = false → s.backend.isSome = true

theorem stable_panicsConnected : Stable PanicsConnected where
  congr := by
    intro s t held same
    rw [PanicsConnected, (same_core same).panicked, (same_core same).mislabelled,
      (same_core same).backend]
    exact held
  mislabel := by
    intro s _ _ other
    cases other
  lost := by
    intro s alive _ panicked
    have same : s.resetBackend.panicked = s.panicked := by
      unfold Session.resetBackend Session.closeBackend
      split <;> rfl
    rw [same, alive] at panicked
    cases panicked

theorem panicsConnected_exchange (alive : s.panicked = false) (some : s.backend.isSome = true) :
    PanicsConnected (exchange w c s).2 := by
  have held : PanicsConnected s := fun _ _ => some
  refine stable_panicsConnected.exchange ?_ ?_ fun _ _ _ => held
  · intro missing
    rw [missing] at some
    cases some
  · exact fun conn _ _ => stable_panicsConnected.lost _ alive held

theorem StatementSends.connected (sends : StatementSends cfg w parsed s c u)
    (some : (controlText (statementKind parsed.query)).isSome = true → s.backend.isSome = true) :
    u.backend.isSome = true ∧ u.panicked = s.panicked := by
  cases sends with
  | use _ routes core =>
    exact ⟨by rw [(same_core core).backend]; exact routes.connected,
      (same_core core).panicked.trans routes.panicked⟩
  | control text => exact ⟨some (by rw [text]; rfl), rfl⟩
  | status _ routes => exact ⟨routes.connected, routes.panicked⟩
  | execute _ _ _ connects => exact ⟨connects.connected.1, connects.panicked⟩

theorem Qualifies.backend (qualifies : Qualifies cfg w parsed s t)
    (some : s.backend.isSome = true) :
    t.backend.isSome = true := by
  cases qualifies with
  | plain _ core => rw [(same_core core).backend, some]
  | shard u _ _ routes core =>
    rw [(same_core core).backend]
    exact routes.connected

theorem Sends.connected (sends : Sends cfg w s input c u)
    (some : usesBackend s input = true → s.backend.isSome = true) :
    u.backend.isSome = true ∧ u.panicked = s.panicked := by
  cases sends with
  | initDB routes core =>
    exact ⟨by rw [(same_core core).backend]; exact routes.connected,
      (same_core core).panicked.trans routes.panicked⟩
  | statement waiting qualifies sends =>
    obtain ⟨connected, same⟩ := sends.connected fun control =>
      qualifies.backend (some (by simpa [usesBackend, waiting] using control))
    exact ⟨connected, same.trans qualifies.panicked⟩
  | execute known core =>
    exact ⟨by rw [(same_core core).backend]; exact some known, (same_core core).panicked⟩
  | close =>
    unfold forgetStatement
    split <;> exact ⟨some rfl, rfl⟩
  | prepare | reset => exact ⟨some rfl, rfl⟩

theorem panicsConnected_step {a : Input × World} (pooled : Pooled cfg s)
    (guard : reconnects s a = true) (taken : step cfg s a = some t) : PanicsConnected t := by
  obtain ⟨input, w⟩ := a
  have alive : s.panicked = false := step_alive taken
  have some : usesBackend s input = true → s.backend.isSome = true := by
    intro uses
    simpa [reconnects, uses] using guard
  have unbroken : ∀ t : Session, t.panicked = s.panicked → PanicsConnected t := by
    intro t same panicked
    rw [same, alive] at panicked
    cases panicked
  refine stable_panicsConnected.step (unbroken s rfl)
    (fun _ _ t _ _ qualifies => unbroken t qualifies.panicked) ?_ ?_ ?_ taken
  · intro c u sends
    obtain ⟨connected, same⟩ := sends.connected some
    exact panicsConnected_exchange (same.trans alive) connected
  · intro query response t _ made _
    have same : t.panicked = s.panicked := exchange_panicked made
    exact unbroken _ same
  · intro t crashes
    cases crashes with
    | noPool _ qualifies missing =>
      have pooled := qualifies.pooled pooled
      rw [Pooled, missing] at pooled
      cases pooled
    | shortAnswer made =>
      obtain ⟨same, some⟩ := exchange_alive made
      exact fun _ _ => by rw [Session.crash, same, some]
    | params known => exact fun _ _ => some known

theorem panicsConnected_run {db : GoString} {init : Session}
    (connected : handleConnection cfg w db = some init)
    (run : Reach (step cfg) (fun s a => reconnects s a = true) init s) :
    Pooled cfg s ∧ PanicsConnected s := by
  refine Reach.invariant (P := fun s => Pooled cfg s ∧ PanicsConnected s)
    ⟨pooled_handleConnection connected, ?_⟩ (fun s a t held guard taken =>
      ⟨pooled_step held.1 taken, panicsConnected_step held.1 guard taken⟩) run
  obtain ⟨pool, -, ⟨-, rfl⟩ | ⟨-, rfl⟩⟩ := handleConnection_cases connected
  · exact fun _ _ => rfl
  · exact panicsConnected_exchange rfl rfl

/-- No command is written to a missing connection if, while there is none, only
commands come that dial one. A panic on a label needs no connection. -/
theorem missing_backend_unused {cfg : ProxyConfig} {w : World} {db : GoString} {init s : Session}
    (connected : handleConnection cfg w db = some init)
    (run : Reach (step cfg) (fun s a => reconnects s a = true) init s) :
    ¬ (s.panicked = true ∧ s.mislabelled = false ∧ s.backend = none) := by
  rintro ⟨panicked, other, missing⟩
  have some := (panicsConnected_run connected run).2 panicked other
  rw [missing] at some
  cases some

def asking (text : String) : List (Input × World) := [(.query (lit text), {})]

def losing (text : String) : List (Input × World) :=
  asking text ++ [(.nextStatement, { reply := none })]

/-- The connection is lost during a SELECT; the next one dials again, so that
BEGIN finds a connection. -/
theorem missing_backend_redialled :
    ∃ s : Session, s.events.any (· == .dialed 1 (lit "p:3306") []) = true ∧ s.inTransaction = true ∧
      ¬ (s.panicked = true ∧ s.mislabelled = false ∧ s.backend = none) := by
  obtain ⟨s, reach, seen⟩ := checked_of_test (step replicated) reconnects client
    (losing "SELECT 1" ++ sending ["SELECT 1", "BEGIN"])
    (fun s => s.events.any (· == .dialed 1 (lit "p:3306") []) && s.inTransaction) (by decide)
  simp only [Bool.and_eq_true] at seen
  exact ⟨s, seen.1, seen.2, missing_backend_unused client_connected reach⟩

/-- A BEGIN after a lost connection is written to no connection at all. -/
theorem missing_backend_used :
    handleConnection replicated {} [] = some client ∧
      ∃ s, Reach (step replicated) free client s ∧ s.panicked = true ∧ s.mislabelled = false ∧
        s.backend = none := by
  refine ⟨client_connected, ?_⟩
  obtain ⟨s, reach, seen⟩ := free_of_test (step replicated) client
    (losing "SELECT 1" ++ sending ["BEGIN"])
    (fun s => s.panicked && !s.mislabelled && s.backend.isNone) (by decide)
  simp only [Bool.and_eq_true, Bool.not_eq_true', Option.isNone_iff_eq_none] at seen
  exact ⟨s, reach, seen.1.1, seen.1.2, seen.2⟩

end TQDBProxy.MariaDB
