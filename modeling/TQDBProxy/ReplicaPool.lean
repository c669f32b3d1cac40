import TQDBProxy.GoStrings

/-! Backend pools and the routing of a database to a pool. A pool is named by
the key under which the configuration has it; its replica list is fixed here,
while the health of the replicas and the round-robin index change. -/

namespace TQDBProxy

structure Pool where
  primary : GoString
  replicas : List GoString := []
  deriving DecidableEq

structure PoolState where
  current : Nat := 0
  healthy : GoString → Bool := fun _ => true

namespace Pool

def getPrimary (p : Pool) : GoString := p.primary

def replicaName (idx : Nat) : GoString := lit "replicas[" ++ Strconv.itoa idx ++ lit "]"

def tryReplicas (p : Pool) (healthy : GoString → Bool) : Nat → Nat → (GoString × GoString) × Nat
  | 0, current => ((p.primary, lit "primary"), current)
  | attempts + 1, current =>
    let replica := p.replicas.getD current []
    let next := (current + 1) % p.replicas.length
    if healthy replica then ((replica, replicaName current), next)
    else tryReplicas p healthy attempts next

def getReplica (p : Pool) (state : PoolState) : (GoString × GoString) × Nat :=
  if p.replicas = [] then ((p.primary, lit "primary"), state.current)
  else p.tryReplicas state.healthy p.replicas.length state.current

end Pool

structure ProxyConfig where
  default : GoString
  dbMap : GoString → GoString
  pools : GoString → Option Pool

def ProxyConfig.shardName (cfg : ProxyConfig) (db : GoString) : GoString :=
  if cfg.dbMap db = [] then cfg.default else cfg.dbMap db

end TQDBProxy
