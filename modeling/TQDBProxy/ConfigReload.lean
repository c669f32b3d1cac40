import TQDBProxy.MariaDBSession
import TQDBProxy.ReplicaHealth

/-! The configuration of the MariaDB proxy from its file to the connection handler. At the
start the proxy refuses to run without a pool for the default backend; a reload makes no
such check, and the connection handler uses the default pool as it finds it. -/

namespace TQDBProxy.Reload

open GuardedRuns

/-- A section as package `ini` presents it: a key has its value with all references replaced,
in the section itself or else in one that stands above it. -/
structure Section where
  name : GoString
  key : GoString → Option GoString

abbrev IniFile := List Section

structure BackendConfig where
  primary : GoString
  replicas : List GoString
  deriving DecidableEq

/-- What the proxy is configured with, but for the options of the write batches. -/
structure LoadedConfig where
  listen : GoString
  socket : GoString
  default : GoString
  backends : GoString → Option BackendConfig := fun _ => none
  dbMap : GoString → Option GoString := fun _ => none

namespace IniFile

def key (file : IniFile) (sectionName key : GoString) : GoString :=
  match file.find? (·.name == sectionName) with
  | some s => (s.key key).getD []
  | none => []

def mustString (value defaultVal : GoString) : GoString := if value = [] then defaultVal else value

end IniFile

def backendName (protocol : GoString) (s : Section) : Option GoString :=
  let start := protocol ++ lit "."
  if start.length < s.name.length ∧
    s.name.take start.length = start then some (s.name.drop start.length)
  else none

def replicaList (s : Section) : List GoString :=
  match s.key (lit "replicas") with
  | none => []
  | some raw => if raw = [] then [] else (Strings.split raw 44).map Strings.trimSpace

def mapDatabases (s : Section) (backend : GoString) (dbMap : GoString → Option GoString) :
    GoString → Option GoString :=
  match s.key (lit "databases") with
  | none => dbMap
  | some dbs =>
    (Strings.split dbs 44).foldl
    (fun dbMap db => Function.update dbMap (Strings.trimSpace db) (some backend)) dbMap

def addSection (protocol : GoString) (pcfg : LoadedConfig) (s : Section) : LoadedConfig :=
  match backendName protocol s with
  | none => pcfg
  | some backend =>
    let primary := (s.key (lit "primary")).getD []
    if primary = [] then pcfg
    else
      { pcfg with
        backends := Function.update pcfg.backends backend (some ⟨primary, replicaList s⟩)
        dbMap := mapDatabases s backend pcfg.dbMap }

def loadProxyConfig (file : IniFile) (protocol defaultListen : GoString) : LoadedConfig :=
  file.foldl (addSection protocol)
    { listen := IniFile.mustString (file.key protocol (lit "listen")) defaultListen
      socket := file.key protocol (lit "socket")
      default := IniFile.mustString (file.key protocol (lit "default")) (lit "main") }

/-- The part of `Load` for this proxy; the environment may name another address. -/
def load (listenEnv : GoString) (file : IniFile) : LoadedConfig :=
  let config := loadProxyConfig file (lit "mariadb") (lit ":3307")
  if listenEnv = [] then config else { config with listen := listenEnv }

abbrev Pools := GoString → Option LivePool

/-- The backends are the keys of a map, so the loops over them are per name. -/
def initPools (backends : GoString → Option BackendConfig) : Pools := fun name =>
  (backends name).map fun backend => LivePool.newPool backend.primary backend.replicas

def updatePools (current : Pools) (backends : GoString → Option BackendConfig) : Pools :=
  fun name =>
  (backends name).map fun backend =>
    match current name with
    | some pool => pool.updateReplicas backend.primary backend.replicas
    | none => LivePool.newPool backend.primary backend.replicas

/-- The pools that the proxy still holds, after `updatePools` has updated some of them. -/
def updatedInPlace (current : Pools) (backends : GoString → Option BackendConfig) : Pools :=
  fun name =>
  (current name).map fun pool =>
    match backends name with
    | some backend => pool.updateReplicas backend.primary backend.replicas
    | none => pool

/-- The proxy, and between the two halves of a reload the file with the pools built from it. -/
structure Proxy where
  config : LoadedConfig
  pools : Pools
  next : Option (IniFile × Pools) := none

structure Startup where
  listenEnv : GoString := []
  opens : GoString → Bool := fun _ => true
  listens : GoString → Bool := fun _ => true

def start (w : Startup) (file : IniFile) : Option Proxy :=
  let config := load w.listenEnv file
  let pools := initPools config.backends
  match pools config.default with
  | none => none
  | some defaultPool =>
    if w.opens defaultPool.primary && w.listens config.listen &&
        (config.socket.isEmpty || w.listens config.socket) then
      some { config := config, pools := pools }
    else none

inductive Action where
  | updatePools (file : Option IniFile)
  | updateConfig
  | mark (name addr : GoString) (status : Bool)
  | getReplica (name : GoString)

/-- A file that cannot be read is passed over; `listenEnv` is the same for all reloads. -/
def step (listenEnv : GoString) (p : Proxy) : Action → Option Proxy
  | .updatePools none => some p
  | .updatePools (some file) =>
    match p.next with
    | some _ => none
    | none =>
      let backends := (load listenEnv file).backends
      some { p with
        pools := updatedInPlace p.pools backends
        next := some (file, updatePools p.pools backends) }
  | .updateConfig =>
    p.next.map fun (file, pools) => { config := load listenEnv file, pools := pools }
  | .mark name addr status =>
    some
      { p with
        pools := Function.update p.pools name
          ((p.pools name).map fun pool => pool.mark addr status) }
  | .getReplica name =>
    match p.pools name with
    | none => none
    | some pool =>
      pool.getReplica.map fun (_, next) =>
        { p with pools := Function.update p.pools name (some { pool with current := next }) }

def Proxy.routing (p : Proxy) : ProxyConfig where
  default := p.config.default
  dbMap := fun db => (p.config.dbMap db).getD []
  pools := fun name => (p.pools name).map fun pool => ⟨pool.primary, pool.replicas⟩

inductive Handling where
  | panics
  | refused
  | connected (s : MariaDB.Session)

/-- The address of the default pool is read before anything else is done. -/
def handleConnection (p : Proxy) (w : MariaDB.World) (db : GoString) : Handling :=
  match p.pools p.config.default with
  | none => .panics
  | some _ =>
    match MariaDB.handleConnection p.routing w db with
    | some s => .connected s
    | none => .refused

/-! ### The default backend -/

/-- The file has a section for its default backend, with a primary. -/
def definesDefault (file : IniFile) : Bool :=
  let default := IniFile.mustString (file.key (lit "mariadb") (lit "default")) (lit "main")
  file.any fun s =>
    backendName (lit "mariadb") s == some default && ((s.key (lit "primary")).getD []) != []

def installsDefault (p : Proxy) : Action → Bool
  | .updateConfig => p.next.all fun (file, _) => definesDefault file
  | _ => true

variable {p q : Proxy} {a : Action} {file : IniFile} {listenEnv : GoString}

theorem addSection_default (protocol : GoString) (pcfg : LoadedConfig) (s : Section) :
    (addSection protocol pcfg s).default = pcfg.default := by
  unfold addSection
  split
  · rfl
  · dsimp only
    split <;> rfl

theorem addSection_backends (protocol : GoString) (pcfg : LoadedConfig) (s : Section)
    (name : GoString) :
    ((addSection protocol pcfg s).backends name).isSome =
      ((pcfg.backends name).isSome ||
        (backendName protocol s == some name && ((s.key (lit "primary")).getD []) != [])) := by
  unfold addSection
  cases named : backendName protocol s with
  | none => simp
  | some backend =>
    dsimp only
    split_ifs with bare
    · simp [bare]
    · by_cases same : name = backend
      · subst same
        simp [bare]
      · simp [Function.update_of_ne same, Ne.symm same]

theorem foldl_addSection (protocol : GoString) (pcfg : LoadedConfig) (sections : List Section) :
    (sections.foldl (addSection protocol) pcfg).default = pcfg.default ∧
      ∀ name, ((sections.foldl (addSection protocol) pcfg).backends name).isSome =
        ((pcfg.backends name).isSome ||
          sections.any fun s =>
            backendName protocol s == some name && ((s.key (lit "primary")).getD []) != []) := by
  induction sections generalizing pcfg with
  | nil => simp
  | cons s rest ih =>
    obtain ⟨default, backends⟩ := ih (addSection protocol pcfg s)
    rw [List.foldl_cons]
    refine ⟨default.trans (addSection_default protocol pcfg s), fun name => ?_⟩
    rw [backends, addSection_backends, List.any_cons, Bool.or_assoc]

theorem load_default :
    ((load listenEnv file).backends (load listenEnv file).default).isSome =
      definesDefault file := by
  have same : ∀ c : LoadedConfig,
      ((if listenEnv = [] then c else { c with listen := listenEnv }).default = c.default) ∧
      (if listenEnv = [] then c else { c with listen := listenEnv }).backends = c.backends := by
    intro c
    split <;> exact ⟨rfl, rfl⟩
  obtain ⟨default, backends⟩ := foldl_addSection (lit "mariadb")
    { listen := IniFile.mustString (file.key (lit "mariadb") (lit "listen")) (lit ":3307")
      socket := file.key (lit "mariadb") (lit "socket")
      default := IniFile.mustString (file.key (lit "mariadb") (lit "default")) (lit "main") } file
  rw [load, (same _).1, (same _).2, loadProxyConfig, default, backends, definesDefault]
  rfl

theorem handleConnection_panics_iff :
    (∀ w db, handleConnection p w db ≠ .panics) ↔ (p.pools p.config.default).isSome = true := by
  unfold handleConnection
  cases p.pools p.config.default with
  | none => exact ⟨fun safe => absurd rfl (safe {} []), fun present => by cases present⟩
  | some pool =>
    simp only [Option.isSome_some, iff_true]
    intro w db
    split <;> simp

def Prepared (listenEnv : GoString) (p : Proxy) : Prop :=
  ∀ file pools, p.next = some (file, pools) →
    ∀ name, (pools name).isSome = ((load listenEnv file).backends name).isSome

theorem prepared_step (prepared : Prepared listenEnv p) (taken : step listenEnv p a = some q) :
    Prepared listenEnv q := by
  cases a with
  | updatePools file =>
    cases file with
    | none =>
      obtain rfl : p = q := by simpa [step] using taken
      exact prepared
    | some file =>
      simp only [step] at taken
      split at taken
      · cases taken
      · cases taken
        rintro _ _ ⟨⟩ name
        simp [updatePools]
  | updateConfig =>
    obtain ⟨⟨file, pools⟩, -, rfl⟩ := Option.map_eq_some_iff.mp taken
    rintro _ _ ⟨⟩
  | mark name addr status =>
    cases taken
    exact prepared
  | getReplica name =>
    simp only [step] at taken
    split at taken
    · cases taken
    · obtain ⟨⟨answer, next⟩, -, rfl⟩ := Option.map_eq_some_iff.mp taken
      exact prepared

theorem default_step (prepared : Prepared listenEnv p)
    (present : (p.pools p.config.default).isSome = true) (taken : step listenEnv p a = some q) :
    (q.pools q.config.default).isSome = true ↔ installsDefault p a = true := by
  cases a with
  | updatePools file =>
    cases file with
    | none =>
      obtain rfl : p = q := by simpa [step] using taken
      simp [installsDefault, present]
    | some file =>
      simp only [step] at taken
      split at taken
      · cases taken
      · cases taken
        simp [installsDefault, updatedInPlace, present]
  | updateConfig =>
    obtain ⟨⟨file, pools⟩, waiting, rfl⟩ := Option.map_eq_some_iff.mp taken
    simp only [installsDefault, waiting, Option.all_some]
    rw [prepared file pools waiting, load_default]
  | mark name addr status =>
    cases taken
    by_cases same : p.config.default = name
    · subst same
      simp [installsDefault, present]
    · simp [installsDefault, Function.update_of_ne same, present]
  | getReplica name =>
    simp only [step] at taken
    split at taken
    · cases taken
    · obtain ⟨⟨answer, next⟩, -, rfl⟩ := Option.map_eq_some_iff.mp taken
      by_cases same : p.config.default = name
      · subst same
        simp [installsDefault]
      · simp [installsDefault, Function.update_of_ne same, present]

theorem start_default {w : Startup} (started : start w file = some p) :
    p.next = none ∧ (p.pools p.config.default).isSome = true := by
  unfold start at started
  dsimp only at started
  split at started
  · cases started
  · rename_i pool found
    split at started
    · cases started
      exact ⟨rfl, by simp [found]⟩
    · cases started

/-- After a successful start no connection finds the default pool missing exactly when every
configuration that is put in place defines it. -/
theorem default_pool_kept_iff {w : Startup} (started : start w file = some p)
    (actions : List Action) (run : replay (step w.listenEnv) p actions = some q) :
    (∀ front, front <+: actions → ∀ r, replay (step w.listenEnv) p front = some r →
        ∀ world db, handleConnection r world db ≠ .panics) ↔
      replay (checked (step w.listenEnv) installsDefault) p actions = some q := by
  obtain ⟨idle, present⟩ := start_default started
  have prepared : Prepared w.listenEnv p := by
    intro file pools waiting
    rw [idle] at waiting
    cases waiting
  refine always_iff_checked (P := fun r => ∀ world db, handleConnection r world db ≠ .panics)
    (Q := Prepared w.listenEnv) (fun _ _ _ => prepared_step) ?_ prepared
    (handleConnection_panics_iff.mpr present) actions run
  intro s a t prepared good taken
  rw [handleConnection_panics_iff]
  exact default_step prepared (handleConnection_panics_iff.mp good) taken

def iniFile (sections : List (String × List (String × String))) : IniFile :=
  sections.map fun (name, keys) =>
    { name := lit name
      key := fun k => (keys.find? fun (key, _) => lit key == k).map fun (_, value) => lit value }

def original : IniFile :=
  iniFile [("mariadb", [("default", "main")]), ("mariadb.main", [("primary", "p:3306")])]

def edited : IniFile :=
  iniFile
    [("mariadb", [("default", "new")]),
      ("mariadb.new", [("primary", "n:3306"), ("replicas", "r:3306")])]

def careless : IniFile :=
  iniFile [("mariadb", [("default", "main")]), ("mariadb.main", [("replicas", "r:3306")])]

def reloading (files : List IniFile) : List Action := files.flatMap fun file =>
    [.updatePools (some file), .updateConfig]

theorem default_pool_kept_edited : ∃ p q, start {} original = some p ∧
    replay (step []) p (reloading [edited, original]) = some q ∧
    ∀ front, front <+: reloading [edited, original] → ∀ r, replay (step []) p front = some r →
      ∀ world db, handleConnection r world db ≠ .panics := by
  have begun : (start {} original).isSome = true := by decide +kernel
  obtain ⟨p, started⟩ := Option.isSome_iff_exists.mp begun
  have ran : ((start {} original).bind fun p =>
      replay (checked (step []) installsDefault) p (reloading [edited, original])).isSome =
        true := by decide +kernel
  rw [started, Option.bind_some] at ran
  obtain ⟨q, passed⟩ := Option.isSome_iff_exists.mp ran
  have run := replay_of_checked _ passed
  exact ⟨p, q, started, run, (default_pool_kept_iff (w := {}) started _ run).mpr passed⟩

/-- A reload without a primary for the default backend leaves the next connection to a
pool that is not there. -/
theorem default_pool_lost : ∃ p q, start {} original = some p ∧
    replay (step []) p (reloading [careless]) = some q ∧ handleConnection q {} [] = .panics := by
  have lost :
    ((start {} original).bind fun p => (replay (step []) p (reloading [careless])).map fun q =>
      (q.pools q.config.default).isNone) = some true := by decide +kernel
  obtain ⟨p, started, after⟩ := Option.bind_eq_some_iff.mp lost
  obtain ⟨q, run, missing⟩ := Option.map_eq_some_iff.mp after
  refine ⟨p, q, started, run, ?_⟩
  rw [handleConnection, Option.isNone_iff_eq_none.mp missing]

end TQDBProxy.Reload
