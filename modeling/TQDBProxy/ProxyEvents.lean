import TQDBProxy.QueryParser
import TQDBProxy.ReplicaPool
import TQDBProxy.Utf8Encoding
import TQDBProxy.WriteBatchTypes

/-! What a proxy does towards its backends, the shared cache and the write-batch
manager while it serves one client, as a log with the newest event first.
Backend connections of a client are numbered in the order they are dialled. -/

namespace TQDBProxy

inductive Command where
  | query (text : GoString)
  | queryArgs (text : GoString) (args : List Value)
  | stmtPrepare (text : GoString)
  | stmtExecute (data : List UInt8)
  | stmtClose (data : List UInt8)
  | stmtReset (data : List UInt8)
  deriving DecidableEq

/-- A prepared execution is cached under a digest; the bytes that are digested
stand for it. -/
inductive CacheKey where
  | text (query : GoString)
  | prepared (digested : GoString)
  deriving DecidableEq

inductive CacheFlag where
  | fresh
  | stale
  | refresh
  deriving DecidableEq

inductive Route where
  | manager
  | backend (conn : Nat)
  deriving DecidableEq

/-- `sent` carries the connection of the acknowledged BEGIN, `write` the connection with a
transaction open when the write arrived, `served` and `stored` the transaction flag. -/
inductive Event where
  | dialed (conn : Nat) (addr db : GoString)
  | closed (conn : Nat)
  | sent (begun : Option Nat) (conn : Nat) (command : Command)
  | write (session : Option Nat) (route : Route)
  | enqueued (db key query : GoString) (params : List Value) (batchMs : Nat)
  | served (inTransaction : Bool) (key : CacheKey)
  | stored (inTransaction : Bool) (key : CacheKey)
  | cancelled (key : CacheKey)
  deriving DecidableEq

def Event.plain : Event → Bool
  | .dialed .. | .closed _ | .sent .. | .cancelled _ => true
  | _ => false

/-- The life time of a cache entry in nanoseconds, which wraps around. -/
def ttlDuration (ttl : Nat) : Int := Int.bmod (ttl * 1000000000 : Nat) (1 <<< 64)

/-- The file that a query is counted under. -/
def Parser.ParsedQuery.fileLabel (parsed : ParsedQuery) : GoString :=
  if parsed.file = [] then lit "unknown" else parsed.file

/-- `WithLabelValues` panics on a label that is not UTF-8. -/
def Parser.ParsedQuery.labelled (parsed : ParsedQuery) : Bool := Utf8.valid parsed.fileLabel

end TQDBProxy
