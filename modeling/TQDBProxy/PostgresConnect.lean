import Mathlib.Data.List.Nodup
import TQDBProxy.ConnectionStrings
import TQDBProxy.PostgresStartup
import TQDBProxy.UpperCase

/-! The connection to the backend. Its host and port and what the client sent are put into
one connection string as they are, and the driver reads the string by its own rules. Every
option is read as it was meant exactly when each of the strings is clean. -/

namespace TQDBProxy

/-- `unicode.IsSpace`. -/
def Unicode.isSpace (r : Nat) : Bool := spaces.contains (Utf8.encodeRune r)

namespace Net

def lastIndexByte (s : GoString) (b : UInt8) : Option Nat :=
  (s.reverse.findIdx? (· == b)).map (s.length - 1 - ·)

/-- The host, and the places from which a further bracket is unexpected. -/
def splitHost (hostport : GoString) (colon : Nat) : Option (GoString × Nat × Nat) :=
  if hostport.head? = some 91 then
    match hostport.findIdx? (· == 93) with
    | none => none
    | some close =>
      if close + 1 = colon then some ((hostport.take close).drop 1, 1, close + 1) else none
  else if (hostport.take colon).contains 58 then none
  else some (hostport.take colon, 0, 0)

/-- `net.SplitHostPort`. -/
def splitHostPort (hostport : GoString) : Option (GoString × GoString) :=
  (lastIndexByte hostport 58).bind fun colon =>
    (splitHost hostport colon).bind fun host =>
      if (hostport.drop host.2.1).contains 91 || (hostport.drop host.2.2).contains 93 then none
      else some (host.1, hostport.drop (colon + 1))

end Net

namespace Postgres

open ConnectionStrings Utf8

structure Credentials where
  user : GoString
  password : GoString
  database : GoString
  deriving DecidableEq

/-- What `handleConnection` takes from the parameters and from the password message. -/
def credentials (params : List (GoString × GoString)) (payload : List UInt8) : Credentials :=
  let user := (lookup (lit "user") params).getD []
  let database := (lookup (lit "database") params).getD []
  { user
    password := if payload.getLast? = some 0 then payload.dropLast else payload
    database := if database = [] then user else database }

def connectToBackend (addr : GoString) (c : Credentials) : GoString :=
  let dsn :=
    lit "host=" ++ lit "127.0.0.1" ++ lit " port=5432 user=" ++ c.user ++ lit " password=" ++
      c.password ++
    lit " dbname=" ++ c.database ++ lit " sslmode=disable"
  if addr.length > 5 ∧ addr.take 5 = lit "unix:" then
    lit "host=" ++ addr.drop 5 ++ lit " user=" ++ c.user ++ lit " password=" ++ c.password ++
      lit " dbname=" ++ c.database ++ lit " sslmode=disable"
  else
    match Net.splitHostPort addr with
    | some (h, prt) =>
      lit "host=" ++ h ++ lit " port=" ++ prt ++ lit " user=" ++ c.user ++ lit " password=" ++
        c.password ++
        lit " dbname=" ++ c.database ++ lit " sslmode=disable"
    | none => dsn

def encoded (s : Setting) : GoString × GoString := (encode s.1, encode s.2)

def parseOpts (dsn : GoString) : Option (List (GoString × GoString)) :=
  (settingsOf Unicode.isSpace (runes dsn)).map fun found => (found.map encoded).reverse

structure Target where
  host : Option GoString
  port : Option GoString
  user : Option GoString
  password : Option GoString
  dbname : Option GoString
  sslmode : Option GoString
  deriving DecidableEq

def target (opts : List (GoString × GoString)) : Target where
  host := lookup (lit "host") opts
  port := lookup (lit "port") opts
  user := lookup (lit "user") opts
  password := lookup (lit "password") opts
  dbname := lookup (lit "dbname") opts
  sslmode := lookup (lit "sslmode") opts

def backend (addr : GoString) : GoString × Option GoString :=
  if addr.length > 5 ∧ addr.take 5 = lit "unix:" then (addr.drop 5, none)
  else
    match Net.splitHostPort addr with
    | some (h, prt) => (h, some prt)
    | none => (lit "127.0.0.1", some (lit "5432"))

def meant (addr : GoString) (c : Credentials) : Target where
  host := some (backend addr).1
  port := (backend addr).2
  user := some c.user
  password := some c.password
  dbname := some c.database
  sslmode := some (lit "disable")

def Target.place (t : Target) : Option GoString × Option GoString := (t.host, t.port)

def Clean (value : GoString) : Prop := valid value = true ∧ Plain Unicode.isSpace (runes value)

structure CleanStrings (addr : GoString) (c : Credentials) : Prop where
  host : Clean (backend addr).1
  port : ∀ port, (backend addr).2 = some port → Clean port
  user : Clean c.user
  password : Clean c.password
  database : Clean c.database

/-! ### The settings of the string -/

def portSetting : Option GoString → List (GoString × GoString)
  | none => []
  | some port => [(lit "port", port)]

def written (addr : GoString) (c : Credentials) : List (GoString × GoString) :=
  (lit "host", (backend addr).1) :: portSetting (backend addr).2 ++
    [(lit "user", c.user), (lit "password", c.password), (lit "dbname", c.database)]

def noTls : GoString × GoString := (lit "sslmode", lit "disable")

theorem connectToBackend_eq (addr : GoString) (c : Credentials) :
    connectToBackend addr c = line (written addr c) noTls := by
  have host : lit "host=" = lit "host" ++ [61] := by decide
  have port : lit " port=" = 32 :: lit "port" ++ [61] := by decide
  have user : lit " user=" = 32 :: lit "user" ++ [61] := by decide
  have standard :
    lit " port=5432 user=" = 32 :: lit "port" ++ 61 :: lit "5432" ++ lit " user=" := by decide
  have password : lit " password=" = 32 :: lit "password" ++ [61] := by decide
  have dbname : lit " dbname=" = 32 :: lit "dbname" ++ [61] := by decide
  have last : lit " sslmode=disable" = 32 :: lit "sslmode" ++ 61 :: lit "disable" := by decide
  unfold connectToBackend written backend
  rw [standard, host, port, user, password, dbname, last]
  split
  · simp [line, writeSetting, portSetting, noTls]
  · split <;> simp [line, writeSetting, portSetting, noTls]

/-! ### The string in runes -/

def decoded (s : GoString × GoString) : Setting := (runes s.1, runes s.2)

def WellFormed (s : GoString × GoString) : Prop := valid s.1 = true ∧ valid s.2 = true

theorem encode_runes {s : GoString} (wellFormed : valid s = true) : encode (runes s) = s := by
  obtain ⟨rs, scalars, rfl⟩ := valid_iff.mp wellFormed
  rw [runes_encode scalars]

theorem WellFormed.encoded_decoded {s : GoString × GoString} (wellFormed : WellFormed s) :
    encoded (decoded s) = s :=
  Prod.ext (encode_runes wellFormed.1) (encode_runes wellFormed.2)

theorem encode_line (settings : List Setting) (last : Setting) :
    encode (line settings last) = line (settings.map encoded) (encoded last) := by
  induction settings with
  | nil =>
    have written : line [] last = last.1 ++ 61 :: last.2 := rfl
    rw [written, encode_append, encode_cons]
    rfl
  | cons s settings ih =>
    rw [line_cons, encode_append, encode_cons, encode_append, encode_cons, ih, List.map_cons,
      line_cons]
    rfl

variable {settings : List (GoString × GoString)} {last : GoString × GoString}

theorem map_decoded (settings : List (GoString × GoString)) (last : GoString × GoString) :
    settings.map decoded ++ [decoded last] = (settings ++ [last]).map decoded := by
  rw [List.map_append, List.map_singleton]

theorem runes_line (wellFormed : ∀ s ∈ settings ++ [last], WellFormed s) :
    runes (line settings last) = line (settings.map decoded) (decoded last) := by
  have scalars : ∀ r ∈ line (settings.map decoded) (decoded last), Scalar r := by
    intro r mem
    rcases mem_line mem with rfl | rfl | ⟨s, among, part⟩
    · decide
    · decide
    · rw [map_decoded] at among
      obtain ⟨t, -, rfl⟩ := List.mem_map.mp among
      exact part.elim (scalar_runes _ r) (scalar_runes _ r)
  have back : (settings.map decoded).map encoded = settings := by
    rw [List.map_map]
    exact (List.map_congr_left fun s mem =>
      (wellFormed s (List.mem_append_left _ mem)).encoded_decoded).trans (List.map_id _)
  have end' :=
    (wellFormed last (List.mem_append_right _ (List.mem_singleton_self _))).encoded_decoded
  rw [← runes_encode scalars, encode_line, back, end']

/-! ### Options that are read as they were written -/

theorem mem_of_lookup {name value : GoString} {table : List (GoString × GoString)}
    (found : lookup name table = some value) : (name, value) ∈ table := by
  obtain ⟨s, first, rfl⟩ := Option.map_eq_some_iff.mp found
  obtain rfl : s.1 = name := by simpa using List.find?_some first
  exact List.mem_of_find?_eq_some first

theorem decoded_mem {found : List Setting} {text : List Nat} (scalars : ∀ r ∈ text, Scalar r)
    (read : settingsOf Unicode.isSpace text = some found) {s : GoString × GoString}
    (option : lookup s.1 (found.map encoded).reverse = some s.2) :
      WellFormed s ∧ decoded s ∈ found := by
  obtain ⟨q, among, same⟩ := List.mem_map.mp (List.mem_reverse.mp (mem_of_lookup option))
  obtain rfl : encoded q = s := same
  have parts : ∀ r ∈ q.1 ++ q.2, Scalar r := fun r part =>
    scalars r (mem_readSettings read among part)
  have key : ∀ r ∈ q.1, Scalar r := fun r mem => parts r (List.mem_append_left _ mem)
  have value : ∀ r ∈ q.2, Scalar r := fun r mem => parts r (List.mem_append_right _ mem)
  have back : decoded (encoded q) = q := Prod.ext (runes_encode key) (runes_encode value)
  exact ⟨⟨valid_iff.mpr ⟨q.1, key, rfl⟩, valid_iff.mpr ⟨q.2, value, rfl⟩⟩, back.symm ▸ among⟩

structure Keys (settings : List (GoString × GoString)) : Prop where
  valid : ∀ s ∈ settings, valid s.1 = true
  isKey : ∀ s ∈ settings, IsKey Unicode.isSpace (runes s.1)
  different : (settings.map fun s => runes s.1).Nodup

theorem Keys.decoded_isKey (keys : Keys settings) :
    ∀ s ∈ settings.map decoded, IsKey Unicode.isSpace s.1 := by
  intro s mem
  obtain ⟨t, among, rfl⟩ := List.mem_map.mp mem
  exact keys.isKey t among

theorem clean_of_parseOpts (keys : Keys (settings ++ [last]))
    (ends : (runes last.2).getLast? = some 101) {opts : List (GoString × GoString)}
    (read : parseOpts (line settings last) = some opts)
    (all : ∀ s ∈ settings ++ [last], lookup s.1 opts = some s.2) :
      ∀ s ∈ settings ++ [last], Clean s.2 := by
  obtain ⟨found, whole, rfl⟩ := Option.map_eq_some_iff.mp read
  have source := fun s mem => decoded_mem (scalar_runes _) whole (all s mem)
  rw [runes_line fun s mem => (source s mem).1] at whole
  have isKey := keys.decoded_isKey
  have different : ((settings ++ [last]).map decoded).Nodup := by
    refine List.Nodup.of_map Prod.fst ?_
    rw [List.map_map]
    exact keys.different
  have stop : (line (settings.map decoded) (decoded last)).getLast? ≠ some 61 := by
    have written : line (settings.map decoded) (decoded last) =
        ((settings.map decoded).flatMap (fun s => writeSetting s ++ [32]) ++
          (runes last.1 ++ [61])) ++ runes last.2 := by
      simp [line, writeSetting, decoded]
    rw [written, List.getLast?_append, ends, Option.some_or]
    decide
  rw [← map_decoded] at isKey different
  have plain :=
    (settingsOf_line_iff (by decide) (by decide) isKey different stop).mp ⟨found, whole, ?_⟩
  · intro s mem
    rw [map_decoded] at plain
    exact ⟨(source s mem).1.2, plain (decoded s) (List.mem_map_of_mem mem)⟩
  · intro s mem
    rw [map_decoded] at mem
    obtain ⟨t, among, rfl⟩ := List.mem_map.mp mem
    exact (source t among).2

theorem parseOpts_line (keys : Keys (settings ++ [last]))
    (clean : ∀ s ∈ settings ++ [last], Clean s.2) :
    parseOpts (line settings last) = some (settings ++ [last]).reverse := by
  have wellFormed : ∀ s ∈ settings ++ [last], WellFormed s := fun s mem =>
    ⟨keys.valid s mem, (clean s mem).1⟩
  have isKey := keys.decoded_isKey
  have plain : ∀ s ∈ (settings ++ [last]).map decoded, Plain Unicode.isSpace s.2 := by
    intro s mem
    obtain ⟨t, among, rfl⟩ := List.mem_map.mp mem
    exact (clean t among).2
  have back : ((settings ++ [last]).map decoded).map encoded = settings ++ [last] := by
    rw [List.map_map]
    exact (List.map_congr_left fun s mem => (wellFormed s mem).encoded_decoded).trans
      (List.map_id _)
  rw [← map_decoded] at isKey plain back
  rw [parseOpts, runes_line wellFormed, settingsOf_line (by decide) (by decide) isKey plain,
    Option.map_some, back]

/-! ### The target of a connection -/

def optionKeys : List GoString :=
  [lit "host", lit "port", lit "user", lit "password", lit "dbname", lit "sslmode"]

theorem optionKeys_plain : (optionKeys.all fun key =>
    valid key && runes key != [] && (runes key).all (!endsKey Unicode.isSpace ·)) = true := by
  decide +kernel

theorem optionKeys_different : (optionKeys.map runes).Nodup := by
  decide +kernel

theorem written_keys (addr : GoString) (c : Credentials) :
    ((written addr c ++ [noTls]).map (·.1)).Sublist optionKeys := by
  unfold written
  cases (backend addr).2 with
  | none =>
    change [lit "host", lit "user", lit "password", lit "dbname", lit "sslmode"].Sublist optionKeys
    decide
  | some port => exact List.Sublist.refl _

theorem keys_written (addr : GoString) (c : Credentials) : Keys (written addr c ++ [noTls]) := by
  have plain : ∀ s ∈ written addr c ++ [noTls],
      (valid s.1 && runes s.1 != [] && (runes s.1).all (!endsKey Unicode.isSpace ·)) = true :=
        fun s mem =>
    List.all_eq_true.mp optionKeys_plain s.1
      ((written_keys addr c).subset (List.mem_map_of_mem mem))
  refine ⟨fun s mem => ?_, fun s mem => ⟨?_, fun r part => ?_⟩, ?_⟩
  · have key := plain s mem
    rw [Bool.and_eq_true, Bool.and_eq_true] at key
    exact key.1.1
  · have key := plain s mem
    rw [Bool.and_eq_true, Bool.and_eq_true] at key
    exact bne_iff_ne.mp key.1.2
  · have key := plain s mem
    rw [Bool.and_eq_true, Bool.and_eq_true] at key
    simpa using List.all_eq_true.mp key.2 r part
  · have different := optionKeys_different.sublist ((written_keys addr c).map runes)
    rw [List.map_map] at different
    exact different

theorem forall_written {P : GoString × GoString → Prop} (addr : GoString) (c : Credentials) :
    (∀ s ∈ written addr c ++ [noTls], P s) ↔
      P (lit "host", (backend addr).1) ∧
        (∀ port, (backend addr).2 = some port → P (lit "port", port)) ∧
        P (lit "user", c.user) ∧ P (lit "password", c.password) ∧ P (lit "dbname", c.database) ∧
          P noTls := by
  unfold written
  cases (backend addr).2 <;> simp [portSetting]

theorem clean_disable : Clean (lit "disable") := by
  refine ⟨by decide, by decide, by decide, fun r mem => ?_⟩
  have plain : ((runes (lit "disable")).all fun r => !Unicode.isSpace r && r != 92) = true := by
    decide +kernel
  simpa using List.all_eq_true.mp plain r mem

theorem cleanStrings_iff (addr : GoString) (c : Credentials) :
    CleanStrings addr c ↔ ∀ s ∈ written addr c ++ [noTls], Clean s.2 := by
  rw [forall_written]
  exact ⟨fun clean => ⟨clean.host, clean.port, clean.user, clean.password, clean.database,
    clean_disable⟩,
    fun clean => ⟨clean.1, clean.2.1, clean.2.2.1, clean.2.2.2.1, clean.2.2.2.2.1⟩⟩

theorem target_written (addr : GoString) (c : Credentials) :
    target (written addr c ++ [noTls]).reverse = meant addr c := by
  unfold target meant written
  cases (backend addr).2 <;> rfl

theorem lookup_of_target {addr : GoString} {c : Credentials} {opts : List (GoString × GoString)}
    (same : target opts = meant addr c) :
      ∀ s ∈ written addr c ++ [noTls], lookup s.1 opts = some s.2 := by
  rw [forall_written]
  refine ⟨congrArg Target.host same, fun port found => ?_, congrArg Target.user same,
    congrArg Target.password same,
    congrArg Target.dbname same, congrArg Target.sslmode same⟩
  rw [← found]
  exact congrArg Target.port same

theorem target_meant_iff (addr : GoString) (c : Credentials) :
    (parseOpts (connectToBackend addr c)).map target = some (meant addr c) ↔
      CleanStrings addr c := by
  rw [connectToBackend_eq]
  constructor
  · intro read
    obtain ⟨opts, found, same⟩ := Option.map_eq_some_iff.mp read
    exact (cleanStrings_iff addr c).mpr
      (clean_of_parseOpts (keys_written addr c) (by decide) found (lookup_of_target same))
  · intro clean
    rw [parseOpts_line (keys_written addr c) ((cleanStrings_iff addr c).mp clean), Option.map_some,
      target_written]

/-- The options are what was meant exactly when all strings are clean, and then no client
moves the connection. -/
theorem connection_target_iff (addr : GoString) (c d : Credentials) :
    ((parseOpts (connectToBackend addr c)).map target = some (meant addr c) ↔ CleanStrings addr c) ∧
    (CleanStrings addr c → CleanStrings addr d →
      (parseOpts (connectToBackend addr c)).map (Target.place ∘ target) =
        (parseOpts (connectToBackend addr d)).map (Target.place ∘ target)) := by
  refine ⟨target_meant_iff addr c, fun one other => ?_⟩
  rw [← Option.map_map, ← Option.map_map, (target_meant_iff addr c).mpr one,
    (target_meant_iff addr d).mpr other]
  rfl

def shopper : Credentials := ⟨lit "ann", lit "pw", lit "shop"⟩

def keeper : Credentials := ⟨lit "bob", lit "it's=mine", lit "shop"⟩

theorem connection_target_clean :
    CleanStrings (lit "[::1]:5433") shopper ∧ CleanStrings (lit "[::1]:5433") keeper ∧
    (parseOpts (connectToBackend (lit "[::1]:5433") shopper)).map (Target.place ∘ target) =
      (parseOpts (connectToBackend (lit "[::1]:5433") keeper)).map (Target.place ∘ target) :=
  have one := (connection_target_iff (lit "[::1]:5433") shopper keeper).1.mp (by decide +kernel)
  have other := (connection_target_iff (lit "[::1]:5433") keeper shopper).1.mp (by decide +kernel)
  ⟨one, other, (connection_target_iff (lit "[::1]:5433") shopper keeper).2 one other⟩

/-- A database name with a second host moves the connection to that host. An empty password
takes the setting after it for its value, and the database is lost. -/
theorem connection_target_moved :
    parseStartupParams
      ([0, 0, 0, 42, 0, 3, 0, 0] ++ lit "user\x00ann\x00database\x00shop host=evil\x00\x00") =
      .returned [(lit "database", lit "shop host=evil"), (lit "user", lit "ann")] ∧
    credentials [(lit "database", lit "shop host=evil"), (lit "user", lit "ann")] (lit "pw\x00") =
      { shopper with database := lit "shop host=evil" } ∧
    (parseOpts
      (connectToBackend (lit "db:5432") { shopper with database := lit "shop host=evil" })).map
        target =
      some { meant (lit "db:5432") shopper with host := some (lit "evil") } ∧
    (parseOpts (connectToBackend (lit "db:5432") shopper)).map target =
      some (meant (lit "db:5432") shopper) ∧
    (parseOpts (connectToBackend (lit "db:5432") { shopper with password := [] })).map target =
      some { meant (lit "db:5432") shopper with
        password := some (lit "dbname=shop"),
        dbname := none } := by
  decide +kernel

end Postgres

end TQDBProxy
