import TQDBProxy.MariaDBReconnect

/-! The current database of the backend session against the one the proxy remembers. The
proxy also changes its own name for a qualified table name, does not look at the answer
to its USE, and does not see every spelling of one. -/

namespace TQDBProxy.MariaDB

open GuardedRuns TQDBProxy.Parser SqlTokens

/-- The name between back quotes, where two of them stand for one. -/
def unquoted : GoString → Option GoString
  | [] => none
  | [96] => some []
  | [_] => none
  | a :: b :: rest =>
    if a = 96 then if b = 96 then (unquoted rest).map (96 :: ·) else none
    else (unquoted (b :: rest)).map (a :: ·)

def identifier : GoString → Option GoString
  | [] => none
  | b :: rest =>
    if b = 96 then unquoted rest else if (b :: rest).all wordByte then some (b :: rest) else none

/-- The database that a USE statement names, in any spelling. A text of several
statements is none: the backend sessions are opened without them. -/
def useTarget (text : GoString) : Option GoString :=
  match code .mysql text with
  | [use, name] => if isKeyword (lit "USE") use then identifier name else none
  | [use, name, [59]] => if isKeyword (lit "USE") use then identifier name else none
  | _ => none

example : useTarget (lit "/* shop */ uSe\t`a``b`;") = some (lit "a`b") := by decide

def World.accepted (w : World) : Bool := w.reply.any (firstByte · != some 0xFF)

/-- The database of the backend session after the events of a step, from the one
before it. -/
def currentDb (w : World) (s : Session) (start : GoString) : List Event → GoString
  | [] => start
  | .dialed _ _ db :: _ => db
  | .sent _ conn c :: older =>
    match (serverText s conn c).bind useTarget with
    | some db => if w.accepted then db else currentDb w s start older
    | none => currentDb w s start older
  | _ :: older => currentDb w s start older

/-- A session with the current database of its backend session; the log is that of
the last step. -/
structure Observed where
  session : Session
  database : GoString

def observe (cfg : ProxyConfig) (o : Observed) (a : Input × World) : Option Observed :=
  (step cfg { o.session with events := [] } a).map fun t =>
    ⟨t, currentDb a.2 o.session o.database t.events⟩

def observeConnection (cfg : ProxyConfig) (w : World) (db : GoString) : Option Observed :=
  (handleConnection cfg w db).map fun s => ⟨s, currentDb w s [] s.events⟩

theorem unquoted_plain {db : GoString} (plain : 96 ∉ db) : unquoted (db ++ [96]) = some db := by
  induction db with
  | nil => rfl
  | cons a rest ih =>
    have tail := ih fun mem => plain (List.mem_cons_of_mem _ mem)
    have other : a ≠ 96 := fun same => plain (same ▸ List.mem_cons_self)
    cases rest with
    | nil => simp [unquoted, other]
    | cons b rest =>
      rw [List.cons_append, List.cons_append, unquoted, if_neg other, ← List.cons_append, tail]
      rfl

theorem run_backQuoted {init : List GoString} {t db : GoString} (plain : 96 ∉ db) :
    run .mysql ⟨.quoted .back false, init ++ [t]⟩ db =
      ⟨.quoted .back false, init ++ [t ++ db]⟩ := by
  induction db generalizing t with
  | nil => simp [run]
  | cons b rest ih =>
    have other : b ≠ 96 := fun same => plain (same ▸ List.mem_cons_self)
    rw [run_cons, SqlTokens.step]
    simp only [stepIn, Lex.extend, extendLast_append, Quote.byte, other, Bool.false_eq_true,
      and_false,
      if_false]
    rw [ih fun mem => plain (List.mem_cons_of_mem _ mem), List.append_assoc]
    rfl

theorem useTarget_useStatement {db : GoString} (plain : 96 ∉ db) :
    useTarget (useStatement db) = some db := by
  have opened : lex .mysql (lit "USE `") = ⟨.quoted .back false, [lit "USE"] ++ [[96]]⟩ := by decide
  have read : lex .mysql (useStatement db) =
      ⟨.closing .back false, [lit "USE", 96 :: (db ++ [96])]⟩ := by
    rw [useStatement, lex_append, lex_append, opened, run_backQuoted plain]
    rfl
  have whole : code .mysql (useStatement db) = [lit "USE", 96 :: (db ++ [96])] := by
    rw [code_closed (by rw [read]; rfl), tokens, read]
    refine significant_of_heads (List.forall_mem_cons.mpr ⟨?_, List.forall_mem_singleton.mpr ?_⟩)
    · exact ⟨85, lit "SE", by decide, by decide⟩
    · exact ⟨96, _, rfl, by decide⟩
  rw [useTarget, whole]
  dsimp only
  rw [if_pos (by decide), identifier, if_pos rfl, unquoted_plain plain]

theorem useTarget_lead {front rest : GoString} {b : UInt8} {t u : GoString}
    (two : tokens .mysql front = [b :: t, u]) (mark : b ∉ ([35, 45, 47] : GoString))
    (other : isKeyword (lit "USE") (b :: t) = false) : useTarget (front ++ rest) = none := by
  obtain ⟨more, whole⟩ := code_lead two mark rest
  rw [useTarget, whole]
  split
  · rename_i eq
    obtain ⟨rfl, -⟩ := List.cons.inj eq
    rw [other]
    rfl
  · rename_i eq
    obtain ⟨rfl, -⟩ := List.cons.inj eq
    rw [other]
    rfl
  · rfl

variable {cfg : ProxyConfig} {w : World} {s t u v : Session} {input : Input} {c : Command}
  {parsed : ParsedQuery} {start : GoString}

theorem useTarget_status : useTarget (statusQuery cfg s) = none := by
  obtain ⟨rest, eq⟩ := statusQuery_select cfg s
  rw [eq]
  exact useTarget_lead (b := 83) (t := lit "ELECT") (u := [39]) (by decide) (by decide) (by decide)

theorem useTarget_control {kind : Kind} {text : GoString} (control : controlText kind = some text) :
    useTarget text = none := by
  cases kind <;> cases control <;> decide

theorem currentDb_filter (events : List Event) :
    currentDb w s start (events.filter wired) = currentDb w s start events := by
  induction events with
  | nil => rfl
  | cons e older ih => cases e <;> simp [List.filter_cons, wired, currentDb, ih]

theorem currentDb_congr (same : t.serverStatements = s.serverStatements) (events : List Event) :
    currentDb w t start events = currentDb w s start events := by
  have texts : ∀ conn c, serverText t conn c = serverText s conn c := by
    intro conn c
    cases c <;> simp only [serverText, same]
  induction events with
  | nil => rfl
  | cons e older ih => cases e <;> simp only [currentDb, ih, texts]

def Agrees (w : World) (s : Session) (start : GoString) (t : Session) : Prop :=
  t.backend.isSome = true → currentDb w s start t.events = t.db

theorem agrees_core (agrees : Agrees w s start t) (same : u.core = t.core) :
    Agrees w s start u := by
  have fields := same_core same
  intro some
  rw [fields.db, ← currentDb_filter, fields.events, currentDb_filter]
  exact agrees (fields.backend ▸ some)

theorem agrees_resetBackend : Agrees w s start t.resetBackend := by
  intro some
  unfold Session.resetBackend at some
  cases some

theorem wired_agrees : Wired (Agrees w s start) where
  congr := fun _ _ agrees same => agrees_core agrees same
  lost := fun _ _ _ => agrees_resetBackend
  mislabel := fun _ agrees => agrees
  crash := fun _ agrees => agrees
  record := fun _ _ _ agrees => agrees

theorem Connects.agrees {addr name pool : GoString} (connects : Connects w addr name pool t u)
    (agrees : Agrees w s start t) : Agrees w s start u ∧ u.db = t.db := by
  cases connects with
  | current _ _ core => exact ⟨agrees_core agrees core, (same_core core).db⟩
  | dialled _ core =>
    have fields := switched core
    refine ⟨fun _ => ?_, fields.db⟩
    rw [← currentDb_filter, fields.events, fields.db]
    rfl

theorem Routes.agrees {db : GoString} (routes : Routes cfg w db t u) (agrees : Agrees w s start t) :
    Agrees w s start u ∧ u.db = t.db := by
  cases routes with
  | here _ _ _ _ core => exact ⟨agrees_core agrees core, (same_core core).db⟩
  | there _ _ connects => exact connects.agrees agrees

/-- The proxy's own USE is accepted, or was for the current database, or the
connection is lost with it. -/
def selects (w : World) (s : Session) (dbName : GoString) : Bool :=
  w.reply.isNone || if w.accepted then !dbName.contains 96 else dbName = s.db

/-- A text that the proxy passes on selects no other database. -/
def quietText (w : World) (s : Session) (text : GoString) : Bool :=
  match useTarget text with
  | none => true
  | some db => db = s.db || !w.accepted

theorem agrees_exchange (agrees : Agrees w s start u) (db : u.db = s.db)
    (quiet : ∀ conn text, u.backend = some conn → serverText s conn c = some text →
      quietText w s text = true) :
    Agrees w s start (exchange w c u).2 := by
  refine wired_agrees.exchange (fun _ => agrees) (fun _ _ _ => agrees_resetBackend) ?_
  intro conn current _ _
  have before : currentDb w s start u.events = u.db := agrees (by rw [current]; rfl)
  have after : currentDb w s start (.sent u.begun conn c :: u.events) = u.db := by
    rw [currentDb]
    split
    · rename_i target selected
      obtain ⟨text, known, target⟩ := Option.bind_eq_some_iff.mp selected
      have still := quiet conn text current known
      simp only [quietText, target, Bool.or_eq_true, decide_eq_true_eq, Bool.not_eq_true'] at still
      rcases still with same | refused
      · rw [same, db, before, db, ite_self]
      · rw [refused]
        exact before
    · exact before
  exact after

theorem agrees_use {dbName : GoString} (agrees : Agrees w s start t) (db : t.db = s.db)
    (core : u.core = { t with db := dbName }.core) (chosen : selects w s dbName = true) :
    Agrees w s start (exchange w (.query (useStatement dbName)) u).2 := by
  have fields := same_core core
  refine wired_agrees.exchange ?_ (fun _ _ _ => agrees_resetBackend) ?_
  · intro missing some
    rw [Session.crash, missing] at some
    cases some
  · intro conn current answered _
    simp only [selects, Bool.or_eq_true, Option.isNone_iff_eq_none] at chosen
    have answer : w.reply ≠ none := by
      intro lost
      rw [lost] at answered
      cases answered
    have chosen := chosen.resolve_left answer
    have before : currentDb w s start u.events = s.db := by
      rw [← currentDb_filter, fields.events, currentDb_filter, ← db]
      exact agrees (by rw [← fields.backend, current]; rfl)
    have name : u.db = dbName := fields.db
    have after :
      currentDb w s start (.sent u.begun conn (.query (useStatement dbName)) :: u.events) =
        u.db := by
      rw [currentDb, serverText, Option.bind_some, name]
      split_ifs at chosen with accepted
      · have plain : 96 ∉ dbName := by simpa using chosen
        rw [useTarget_useStatement plain]
        simp [accepted]
      · have same : dbName = s.db := by simpa using chosen
        split
        · rw [if_neg accepted, before, same]
        · rw [before, same]
    exact after

/-- The database changes only with an accepted USE of the proxy. -/
def statementAgrees (w : World) (s : Session) (parsed : ParsedQuery) : Bool :=
  (parsed.db = [] || parsed.db = s.db) &&
    match statementKind parsed.query with
    | .use dbName => selects w s dbName
    | .other => quietText w s parsed.query
    | _ => true

/-- Qualified names stay in the current database, the proxy's USE is accepted, and no
other USE is passed on. -/
def agreesDatabase (s : Session) (a : Input × World) : Bool :=
  match a.1 with
  | .initDB dbName => selects a.2 s dbName
  | .nextStatement =>
    match s.pending with
    | [] => true
    | query :: _ => statementAgrees a.2 s (statementParsed query s.original)
  | .stmtExecute data =>
    s.backend.all fun conn => (serverText s conn (.stmtExecute data)).all (quietText a.2 s)
  | _ => true

theorem Qualifies.same (qualifies : Qualifies cfg w parsed s t)
    (unnamed : parsed.db = [] ∨ parsed.db = s.db) :
    t.core = s.core := by
  cases qualifies with
  | plain _ core => exact core
  | shard _ named away _ _ => exact absurd unnamed (not_or.mpr ⟨named, away⟩)

theorem StatementSends.agrees (sends : StatementSends cfg w parsed t c u)
    (agrees : Agrees w s start t) (db : t.db = s.db) (guard : statementAgrees w s parsed = true) :
    Agrees w s start (exchange w c u).2 := by
  simp only [statementAgrees, Bool.and_eq_true] at guard
  have silent : ∀ {text : GoString} {conn : Nat} {known : GoString}, useTarget text = none →
      serverText s conn (.query text) = some known → quietText w s known = true := by
    intro text conn known none found
    cases found
    rw [quietText, none]
  cases sends with
  | use kind routes core =>
    obtain ⟨routed, same⟩ := routes.agrees agrees
    rw [kind] at guard
    exact agrees_use routed (same.trans db) core guard.2
  | control control =>
    exact agrees_exchange agrees db fun _ _ _ => silent (useTarget_control control)
  | status _ routes =>
    obtain ⟨routed, same⟩ := routes.agrees agrees
    exact agrees_exchange routed (same.trans db) fun _ _ _ => silent useTarget_status
  | execute kind _ _ connects =>
    obtain ⟨connected, same⟩ := connects.agrees agrees
    rw [kind] at guard
    refine agrees_exchange connected (same.trans db) fun _ _ _ known => ?_
    cases known
    exact guard.2

/-- The step is taken by a session that differs from `s` in its log only. -/
theorem Sends.agrees (sends : Sends cfg w { s with events := [] } input c u)
    (agrees : Agrees w s start { s with events := [] })
    (guard : agreesDatabase s (input, w) = true) :
    Agrees w s start (exchange w c u).2 := by
  cases sends with
  | initDB routes core =>
    obtain ⟨routed, same⟩ := routes.agrees agrees
    exact agrees_use routed same core guard
  | statement waiting qualifies sends =>
    have waiting : s.pending = _ := waiting
    simp only [agreesDatabase, waiting] at guard
    have core := qualifies.same (by simpa [statementAgrees] using (Bool.and_eq_true_iff.mp guard).1)
    exact sends.agrees (agrees_core agrees core) (same_core core).db guard
  | execute _ core =>
    refine agrees_exchange (agrees_core agrees core) (same_core core).db fun conn text current
      known => ?_
    have current : s.backend = some conn := (same_core core).backend ▸ current
    simpa [agreesDatabase, current, known] using guard
  | @close data =>
    have forgotten : Agrees w s start (forgetStatement data { s with events := [] }) := by
      unfold forgetStatement
      split <;> exact agrees
    refine agrees_exchange forgotten ?_ fun _ _ _ known => by cases known
    unfold forgetStatement
    split <;> rfl
  | prepare | reset => exact agrees_exchange agrees rfl fun _ _ _ known => by cases known

theorem agrees_step {o p : Observed} {a : Input × World}
    (agrees : o.session.backend.isSome = true → o.session.db = o.database)
    (guard : agreesDatabase o.session a = true) (taken : observe cfg o a = some p) :
    p.session.backend.isSome = true → p.session.db = p.database := by
  obtain ⟨input, w⟩ := a
  obtain ⟨t, moved, rfl⟩ := Option.map_eq_some_iff.mp taken
  have initial : Agrees w o.session o.database { o.session with events := [] } :=
    fun some => (agrees some).symm
  have held : Agrees w o.session o.database t := by
    refine wired_agrees.step initial ?_ (fun c u sends => sends.agrees initial guard) moved
    intro query rest t next waiting qualifies
    have waiting : o.session.pending = query :: rest := waiting
    simp only [agreesDatabase, next, waiting] at guard
    refine agrees_core initial (qualifies.same ?_)
    simpa [statementAgrees] using (Bool.and_eq_true_iff.mp guard).1
  exact fun some => (held some).symm

/-- The handshake's database is selected by an accepted USE, or by none. -/
def opens (w : World) (db : GoString) : Bool :=
  db = [] || w.reply.isNone || (w.accepted && !db.contains 96)

theorem agrees_observeConnection {db : GoString} {o : Observed} (opened : opens w db = true)
    (connected : observeConnection cfg w db = some o) :
    o.session.backend.isSome = true → o.session.db = o.database := by
  obtain ⟨s, shaken, rfl⟩ := Option.map_eq_some_iff.mp connected
  obtain ⟨pool, -, ⟨empty, rfl⟩ | ⟨some, rfl⟩⟩ := handleConnection_cases shaken
  · exact fun _ => empty
  · -- Before the USE the backend session has no database.
    have chosen : selects w (greeted cfg pool []) db = true := by
      simp only [opens, some, decide_false, Bool.false_or, Bool.or_eq_true, Bool.and_eq_true]
        at opened
      rcases opened with lost | ⟨accepted, plain⟩
      · simp [selects, lost]
      · rw [selects, if_pos accepted, plain, Bool.or_true]
    have agrees :
        Agrees w (greeted cfg pool []) []
          (exchange w (.query (useStatement db)) (greeted cfg pool db)).2 :=
      agrees_use (t := greeted cfg pool []) (fun _ => rfl) rfl rfl chosen
    have server : (exchange w (.query (useStatement db)) (greeted cfg pool db)).2.serverStatements =
        (greeted cfg pool []).serverStatements := exchange_statements.1
    exact fun some => (agrees some).symm.trans (currentDb_congr server _).symm

/-- The two databases agree on every run whose steps keep them together. -/
theorem databases_agree {cfg : ProxyConfig} {w : World} {db : GoString} {init o : Observed}
    (connected : observeConnection cfg w db = some init) (opened : opens w db = true)
    (run : Reach (observe cfg) (fun o a => agreesDatabase o.session a = true) init o) :
    o.session.backend.isSome = true → o.session.db = o.database :=
  Reach.invariant (P := fun o => o.session.backend.isSome = true → o.session.db = o.database)
    (agrees_observeConnection opened connected) (fun _ _ _ => agrees_step) run

theorem client_observed : observeConnection replicated {} [] = some ⟨client, []⟩ := by rfl

theorem databases_agree_use :
    ∃ o : Observed, o.session.backend.isSome = true ∧ o.database = lit "shop" ∧
      (o.session.backend.isSome = true → o.session.db = o.database) := by
  obtain ⟨o, reach, seen⟩ := checked_of_test (observe replicated)
    (fun o a => agreesDatabase o.session a) ⟨client, []⟩
    (sending ["use `shop`;", "SELECT a FROM t"])
    (fun o => o.session.backend.isSome && o.database == lit "shop") (by decide)
  simp only [Bool.and_eq_true, beq_iff_eq] at seen
  exact ⟨o, seen.1, seen.2, databases_agree client_observed (by decide) reach⟩

/-- A qualified name changes the proxy's database, and nothing tells the backend. -/
theorem databases_differ_qualified :
    observeConnection replicated {} [] = some ⟨client, []⟩ ∧
      ∃ o : Observed, Reach (observe replicated) free ⟨client, []⟩ o ∧
        o.session.backend.isSome = true ∧ o.session.db = lit "shop" ∧ o.database = [] := by
  refine ⟨client_observed, ?_⟩
  obtain ⟨o, reach, seen⟩ := free_of_test (observe replicated) ⟨client, []⟩
    (sending ["SELECT a FROM shop.t"])
    (fun o => o.session.backend.isSome && o.session.db == lit "shop" && o.database == [])
    (by decide)
  simp only [Bool.and_eq_true, beq_iff_eq] at seen
  exact ⟨o, reach, seen.1.1, seen.1.2, seen.2⟩

end TQDBProxy.MariaDB
