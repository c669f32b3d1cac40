import TQDBProxy.GoStrings

/-! Requests and results of the write-batch component.
A parameter is one of the dynamic types the two
proxies bind, and an error is either one of the package's sentinels or a
message of the database driver. -/

namespace TQDBProxy

inductive Value where
  | null
  | bool (b : Bool)
  | int (i : Int)
  | uint (n : Nat)
  | float (bits : UInt64)
  | string (s : GoString)
  | bytes (b : List UInt8)
  | other (rendered : GoString)
  deriving DecidableEq

inductive WriteError where
  | managerClosed
  | timeout
  | canceled
  | database (message : GoString)
  deriving DecidableEq

structure WriteResult where
  affectedRows : Int := 0
  lastInsertId : Int := 0
  batchSize : Nat := 0
  returningValues : List Value := []
  error : Option WriteError := none
  deriving DecidableEq

def WriteResult.failed (e : WriteError) : WriteResult := { error := some e }

end TQDBProxy
