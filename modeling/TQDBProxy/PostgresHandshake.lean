import TQDBProxy.PostgresConnect

/-! A client of the PostgreSQL proxy from its first byte to the session that is served: the
refused encryption, the start-up message, the password, the connection to the primary, and
what the client is told of it. -/

namespace TQDBProxy.PostgresHandshake

open Postgres

structure Client where
  unread : List UInt8
  out : Outgoing

/-- What `sql.Open` and `Ping` return for a connection string: the text of an error. -/
structure Backend where
  opens : GoString → Option GoString
  pings : GoString → Option GoString

namespace Client

def read {α : Type} (reader : Incoming → Except ReadError α × Incoming) (c : Client) :
    Option α × Client :=
  ((reader { unread := c.unread }).1.toOption,
    { c with unread := (reader { unread := c.unread }).2.unread })

/-- The result of a write is not looked at. -/
def send (c : Client) (m : RawMessage) : Client := { c with out := (writeMessage m c.out).2 }

end Client

def sendErrorWithSeverity (severity code message : GoString) : RawMessage :=
  ⟨69, [83] ++ severity ++ [0] ++ [67] ++ code ++ [0] ++ [77] ++ message ++ [0, 0]⟩

def sendError (code message : GoString) : RawMessage :=
  sendErrorWithSeverity (lit "ERROR") code message

def sendFatalError (code message : GoString) : RawMessage :=
  sendErrorWithSeverity (lit "FATAL") code message

def sendParameterStatus (name value : GoString) : RawMessage := ⟨83, name ++ [0] ++ value ++ [0]⟩

def cleartextPassword : RawMessage := ⟨82, [0, 0, 0, 3]⟩

def authenticationOk : RawMessage := ⟨82, [0, 0, 0, 0]⟩

def welcome (connID : Nat) : List RawMessage :=
  [authenticationOk, sendParameterStatus (lit "server_version") (lit "16.0"),
   sendParameterStatus (lit "client_encoding") (lit "UTF8"),
     sendParameterStatus (lit "DateStyle") (lit "ISO, MDY"),
   sendParameterStatus (lit "TimeZone") (lit "UTC"), ⟨75, putUint32 connID ++ putUint32 12345⟩,
     ⟨90, [73]⟩]

/-- The start-up message, after one refusal of encryption if it was asked for. -/
def readStartup (c : Client) : Option (List UInt8) × Client :=
  match c.read readStartupMessage with
  | (none, c) => (none, c)
  | (some msg, c) =>
    if msg.length = 8 ∧ uint32 (msg.drop 4) = 80877103 then
      match write [78] c.out with
      | (false, out) => (none, { c with out })
      | (true, out) => Client.read readStartupMessage { c with out }
    else (some msg, c)

def readPassword (c : Client) : Option (List UInt8) × Client :=
  match (c.send cleartextPassword).read readMessage with
  | (none, c) => (none, c)
  | (some m, c) =>
    if m.msgType = 112 then (some m.payload, c)
    else (none, c.send (sendError (lit "08P01") (lit "expected password message")))

/-- The session on the primary, or what the client is told instead. -/
def connect (cfg : ProxyConfig) (backend : Backend) (c : Credentials) : Except RawMessage Session :=
  let backendName := cfg.shardName c.database
  match cfg.pools backendName with
  | none => .error (sendFatalError (lit "08006") (lit "no backend pool configured"))
  | some pool =>
    let db := connectToBackend pool.getPrimary c
    match backend.opens db with
    | some e => .error (sendError (lit "08006") (lit "cannot connect to backend: " ++ e))
    | none =>
      match backend.pings db with
      | some e =>
        .error (sendFatalError (lit "28P01") (if e.take 4 = lit "pq: " then e.drop 4 else e))
      | none =>
        .ok { shard := backendName, pool, database := c.database,
              events := [.dialed 0 pool.getPrimary c.database] }

/-- What the client is told of the connection. -/
def answer (connID : Nat) : Except RawMessage Session → List RawMessage
  | .error told => [told]
  | .ok _ => welcome connID

def handleConnection (cfg : ProxyConfig) (backend : Backend) (connID : Nat) (c : Client) :
    Option Session × Client :=
  match readStartup c with
  | (none, c) => (none, c)
  | (some startupMsg, c) =>
    match parseStartupParams startupMsg with
    | .returned params =>
      match readPassword c with
      | (none, c) => (none, c)
      | (some payload, c) =>
        let connected := connect cfg backend (credentials params payload)
        (connected.toOption, (answer connID connected).foldl Client.send c)
    | _ => (none, c)

variable {cfg : ProxyConfig} {backend : Backend} {c : Client} {refused : List UInt8}
  {messages : List RawMessage}
  {out : Outgoing}

/-! ### What the client is told -/

/-- The connection takes every byte; the refusal and then the messages were written to it. -/
structure Told (refused : List UInt8) (messages : List RawMessage) (out : Outgoing) : Prop where
  works : ∀ k, out.fails k = none
  written : out.written = refused ++ encodeMessages messages

theorem Told.send (told : Told refused messages c.out) (m : RawMessage) :
    Told refused (messages ++ [m]) (c.send m).out := by
  rw [Client.send, writeMessage_works told.works]
  exact ⟨told.works, by simp [told.written, encodeMessages]⟩

theorem Told.sendAll (told : Told refused messages c.out) (more : List RawMessage) :
    Told refused (messages ++ more) (more.foldl Client.send c).out := by
  induction more generalizing c messages with
  | nil => simpa using told
  | cons m more ih => simpa using ih (told.send m)

theorem unread_sendAll (more : List RawMessage) (c : Client) :
    (more.foldl Client.send c).unread = c.unread := by
  induction more generalizing c with
  | nil => rfl
  | cons m more ih => exact ih (c.send m)

theorem told_readStartup (told : Told [] [] c.out) :
    ∃ refused, (refused = [] ∨ refused = [78]) ∧ Told refused [] (readStartup c).2.out := by
  have refusal := write_works told.works [78] c.out.writes c.out.written
  unfold readStartup
  split
  · rename_i read
    obtain rfl := (Prod.mk.inj read).2
    exact ⟨[], .inl rfl, told⟩
  · rename_i read
    obtain rfl := (Prod.mk.inj read).2
    split
    · simp only [Client.read, refusal]
      exact ⟨[78], .inr rfl, told.works, by simp [told.written, encodeMessages]⟩
    · exact ⟨[], .inl rfl, told⟩

theorem told_readPassword (told : Told refused [] c.out) :
    ∃ messages, authenticationOk ∉ messages ∧ Told refused messages (readPassword c).2.out := by
  have asked := told.send cleartextPassword
  unfold readPassword
  split
  · rename_i read
    obtain rfl := (Prod.mk.inj read).2
    exact ⟨_, by decide, asked⟩
  · rename_i read
    obtain rfl := (Prod.mk.inj read).2
    split
    · exact ⟨_, by decide, asked⟩
    · exact ⟨_, by decide, Told.send asked _⟩

theorem authenticationOk_mem_answer (connID : Nat) (creds : Credentials) :
    authenticationOk ∈ answer connID (connect cfg backend creds) ↔
      (connect cfg backend creds).toOption.isSome = true := by
  cases connected : connect cfg backend creds with
  | ok s => simp [answer, welcome, Except.toOption]
  | error told =>
    -- an error has its own type byte
    have kind : told.msgType = 69 := by
      simp only [connect] at connected
      repeat' split at connected
      all_goals cases connected
      all_goals rfl
    have other : authenticationOk ≠ told := by
      rintro rfl
      exact absurd kind (by decide)
    simp [answer, Except.toOption, other]

theorem connect_ok {s : Session} {creds : Credentials}
    (served : (connect cfg backend creds).toOption = some s) :
    ∃ pool, cfg.pools (cfg.shardName creds.database) = some pool ∧
      backend.pings (connectToBackend pool.getPrimary creds) = none ∧
      s = { shard := cfg.shardName creds.database, pool, database := creds.database,
            events := [.dialed 0 pool.getPrimary creds.database] } := by
  simp only [connect] at served
  repeat' split at served
  all_goals cases served
  exact ⟨_, ‹cfg.pools _ = some _›, ‹backend.pings _ = none›, rfl⟩

theorem database_default (params : List (GoString × GoString)) (payload : List UInt8) :
    (if (credentials params payload).database = [] then (credentials params payload).user
      else (credentials params payload).database) = (credentials params payload).database := by
  dsimp only [credentials]
  split_ifs <;> simp_all

/-- Whatever a client sends, it is told that it is authenticated exactly when it is served,
and it is served only where the connection that was made of its own credentials has been
accepted. That connection is one to the primary of its database, with these credentials,
exactly when all strings in it are clean. -/
theorem authenticated_iff_served (cfg : ProxyConfig) (backend : Backend) (connID : Nat)
    (unread : List UInt8) :
    let c : Client := ⟨unread, { fails := fun _ => none }⟩
    let ended := handleConnection cfg backend connID c
    (∃ refused messages, (refused = [] ∨ refused = [78]) ∧
      ended.2.out.written = refused ++ encodeMessages messages ∧
      (authenticationOk ∈ messages ↔ ended.1.isSome = true)) ∧
    ∀ s, ended.1 = some s → ∃ startupMsg params payload pool,
      (readStartup c).1 = some startupMsg ∧ parseStartupParams startupMsg = .returned params ∧
      (readPassword (readStartup c).2).1 = some payload ∧
      cfg.pools (cfg.shardName (credentials params payload).database) = some pool ∧
      backend.pings (connectToBackend pool.getPrimary (credentials params payload)) = none ∧
      ((parseOpts (connectToBackend pool.getPrimary (credentials params payload))).map target =
          some (meant pool.getPrimary (credentials params payload)) ↔
        CleanStrings pool.getPrimary (credentials params payload)) ∧
      Postgres.handleConnection cfg (credentials params payload).user
        (credentials params payload).database = some s := by
  intro c ended
  obtain ⟨refused, refusal, started⟩ := told_readStartup (c := c) ⟨fun _ => rfl, rfl⟩
  obtain ⟨messages, asked, told⟩ := told_readPassword started
  have ending : ended = handleConnection cfg backend connID c := rfl
  unfold handleConnection at ending
  rcases startup : readStartup c with ⟨_ | startupMsg, c₁⟩
  · simp only [startup] at ending started
    exact ⟨⟨refused, [], refusal, by rw [ending, started.written], by simp [ending]⟩, by
      simp [ending]⟩
  obtain ⟨params, parsed⟩ := parseStartupParams_returns startupMsg
  rcases password : readPassword c₁ with ⟨_ | payload, c₂⟩
  · simp only [startup, parsed, password] at ending told
    exact ⟨⟨refused, messages, refusal, by rw [ending, told.written], by simp [ending, asked]⟩, by
      simp [ending]⟩
  simp only [startup, parsed, password] at ending told
  refine ⟨⟨refused, _, refusal, by rw [ending]; exact (Told.sendAll told _).written, ?_⟩,
    fun s served => ?_⟩
  · simp [ending, asked, authenticationOk_mem_answer]
  · rw [ending] at served
    obtain ⟨pool, found, accepted, rfl⟩ := connect_ok served
    exact ⟨startupMsg, params, payload, pool, rfl, parsed, rfl, found, accepted,
      target_meant_iff _ _, by simp only [Postgres.handleConnection, database_default, found]⟩

/-! ### A client that keeps to the protocol -/

structure Login where
  encrypted : Bool
  startup : StartupMessage
  password : GoString
  fits : password.length < 4294967291

def sslRequest : List UInt8 := [0, 0, 0, 8, 4, 210, 22, 47]

namespace Login

def encode (l : Login) : List UInt8 :=
  (if l.encrypted then sslRequest else []) ++
    (l.startup.encode ++ RawMessage.encode ⟨112, l.password ++ [0]⟩)

/-- The last value of a key counts; the database defaults to the user's name. -/
def credentials (l : Login) : Credentials :=
  let user := (startupMap l.startup.pairs (lit "user")).getD []
  let database := (startupMap l.startup.pairs (lit "database")).getD []
  ⟨user, l.password, if database = [] then user else database⟩

theorem read_startup (m : StartupMessage) (rest : List UInt8) (out : Outgoing) :
    Client.read readStartupMessage ⟨m.encode ++ rest, out⟩ = (some m.encode, ⟨rest, out⟩) := by
  rw [Client.read, readStartupMessage_encode]
  rfl

theorem read_sslRequest (rest : List UInt8) (out : Outgoing) :
    Client.read readStartupMessage ⟨sslRequest ++ rest, out⟩ = (some sslRequest, ⟨rest, out⟩) := by
  have length := readFull_append [0, 0, 0, 8] ([4, 210, 22, 47] ++ rest) []
  have code := readFull_append [4, 210, 22, 47] rest ([] ++ [4])
  have size : (uint32 [0, 0, 0, 8] - 4).toNat = 4 := by decide
  simp only [List.length_cons, List.length_nil] at length code
  have parts : sslRequest ++ rest = [0, 0, 0, 8] ++ ([4, 210, 22, 47] ++ rest) := rfl
  simp only [Client.read, readStartupMessage, parts, length, size, code]
  rfl

variable (l : Login)

theorem readStartup_encode (rest : List UInt8) :
    ∃ out, Told (if l.encrypted then [78] else []) [] out ∧
      readStartup ⟨l.encode ++ rest, { fails := fun _ => none }⟩ =
        (some l.startup.encode, ⟨RawMessage.encode ⟨112, l.password ++ [0]⟩ ++ rest, out⟩) := by
  have long : ¬ (l.startup.encode.length = 8 ∧ uint32 (l.startup.encode.drop 4) = 80877103) := by
    simp [StartupMessage.encode, startupBody]
    omega
  have code : sslRequest.length = 8 ∧ uint32 (sslRequest.drop 4) = 80877103 := by decide
  unfold encode
  cases l.encrypted with
  | false =>
    refine ⟨{ fails := fun _ => none }, ⟨fun _ => rfl, rfl⟩, ?_⟩
    simp only [Bool.false_eq_true, if_false, List.nil_append, List.append_assoc, readStartup,
      read_startup, if_neg long]
  | true =>
    refine ⟨⟨fun _ => none, 1, [78]⟩, ⟨fun _ => rfl, rfl⟩, ?_⟩
    simp only [if_true, List.append_assoc, readStartup, read_sslRequest, if_pos code, write,
      read_startup, List.nil_append]

theorem readPassword_encode (rest : List UInt8) (told : Told refused [] out) :
    ∃ after, Told refused [cleartextPassword] after ∧
      readPassword ⟨RawMessage.encode ⟨112, l.password ++ [0]⟩ ++ rest, out⟩ =
        (some (l.password ++ [0]), ⟨rest, after⟩) := by
  refine ⟨_, Told.send (c := ⟨[], out⟩) told cleartextPassword, ?_⟩
  rw [readPassword, Client.read]
  dsimp only [Client.send]
  rw [readMessage_encode _ (by simpa using Nat.succ_lt_succ l.fits)]
  rfl

theorem credentials_encode :
    Postgres.credentials (l.startup.pairs.map fun p => (p.key, p.value)).reverse
      (l.password ++ [0]) = l.credentials := by
  have map := startupMap_lookup l.startup.pairs []
  rw [List.append_nil] at map
  have value (key : GoString) : lookup key (l.startup.pairs.map fun p => (p.key, p.value)).reverse =
      startupMap l.startup.pairs key := (congrFun map key).symm
  simp [Postgres.credentials, Login.credentials, value]

end Login

/-- Such a client gets the session of its credentials or is told why not, and what it sends
afterwards is left for the session. -/
theorem login_answered (cfg : ProxyConfig) (backend : Backend) (connID : Nat) (l : Login)
    (rest : List UInt8) :
    let ended := handleConnection cfg backend connID ⟨l.encode ++ rest, { fails := fun _ => none }⟩
    let connected := connect cfg backend l.credentials
    ended.1 = connected.toOption ∧ ended.2.unread = rest ∧ ended.2.out.written =
      (if l.encrypted then [78] else []) ++
        encodeMessages (cleartextPassword :: answer connID connected) := by
  intro ended connected
  obtain ⟨out, started, startup⟩ := l.readStartup_encode rest
  obtain ⟨after, asked, password⟩ := l.readPassword_encode rest started
  have ending :
      ended = (connected.toOption, (answer connID connected).foldl Client.send ⟨rest, after⟩) := by
    simp only [ended, handleConnection, startup, parseStartupParams_encode, password,
      l.credentials_encode, connected]
  rw [ending]
  exact ⟨rfl, unread_sendAll _ _, (Told.sendAll (c := ⟨rest, after⟩) asked _).written⟩

end TQDBProxy.PostgresHandshake
