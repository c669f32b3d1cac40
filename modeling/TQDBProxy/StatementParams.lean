import TQDBProxy.WriteBatchTypes

/-! The parameters of a COM_STMT_EXECUTE packet: a bitmap of the NULL
parameters, the types when they are sent, and the values. A slice out of range
is a panic. -/

namespace TQDBProxy.MariaDB

inductive Decoded (α : Type) where
  | ok (value : α)
  | error (message : GoString)
  | panics
  deriving DecidableEq

/-- The value and the number of bytes read, none of them where it is cut off. -/
def decodeLengthEncodedInt : List UInt8 → Nat × Nat
  | [] => (0, 0)
  | b :: rest =>
    if b = 0xfb then (0, 1)
    else if b = 0xfc then if rest.length < 2 then (0, 0) else (Binary.littleEndian (rest.take 2), 3)
    else if b = 0xfd then if rest.length < 3 then (0, 0) else (Binary.littleEndian (rest.take 3), 4)
    else if b = 0xfe then if rest.length < 8 then (0, 0) else (Binary.littleEndian (rest.take 8), 9)
    else (b.toNat, 1)

def decodeFixed (data : List UInt8) (pos width : Nat) (unsigned : Bool) (name : String) :
    Decoded (Value × Nat) :=
  if data.length < pos + width then .error (lit "not enough data for " ++ lit name)
  else
    let value := Binary.littleEndian ((data.drop pos).take width)
    .ok (if unsigned then .uint value else .int (Int.bmod value (1 <<< (8 * width))), pos + width)

def hexDigit (n : Nat) : UInt8 := UInt8.ofNat (if n < 10 then 48 + n else 87 + n)

/-- A string with its length in front, which is taken for a signed integer. -/
def decodeString (data : List UInt8) (pos : Nat) : Decoded (Value × Nat) :=
  if data.length < pos then .panics
  else
    let (strLen, n) := decodeLengthEncodedInt (data.drop pos)
    if n = 0 then .error (lit "failed to decode string length")
    else
      let stop := Int.bmod (pos + n + strLen : Nat) (1 <<< 64)
      if (data.length : Int) < stop then .error (lit "not enough data for string")
      else if stop < (pos + n : Nat) then .panics
      else .ok (.string ((data.drop (pos + n)).take (stop.toNat - (pos + n))), stop.toNat)

def decodeParamValue (data : List UInt8) (pos : Nat) (fieldType : UInt8) (unsigned : Bool) :
    Decoded (Value × Nat) :=
  if fieldType = 0x01 then decodeFixed data pos 1 unsigned "TINY"
  else if fieldType = 0x02 then decodeFixed data pos 2 unsigned "SHORT"
  else if fieldType = 0x03 then decodeFixed data pos 4 unsigned "LONG"
  else if fieldType = 0x08 then decodeFixed data pos 8 unsigned "LONGLONG"
  else if fieldType = 0xfe ∨ fieldType = 0xfd then decodeString data pos
  else
    .error (lit "unsupported field type: 0x" ++
      [hexDigit (fieldType.toNat / 16), hexDigit (fieldType.toNat % 16)])

def decodeParams (data nullBitmap : List UInt8) (types : Option (List UInt8)) :
    Nat → Nat → Nat → Decoded (List Value)
  | 0, _, _ => .ok []
  | remaining + 1, i, pos =>
    if (nullBitmap.getD (i / 8) 0).toNat.testBit (i % 8) then
      match decodeParams data nullBitmap types remaining (i + 1) pos with
      | .ok params => .ok (.null :: params)
      | failure => failure
    else
      match types with
      | none => .error (lit "cannot decode parameters without type information")
      | some types =>
        match decodeParamValue data pos (types.getD (2 * i) 0)
          (types.getD (2 * i + 1) 0 == 0x80) with
        | .panics => .panics
        | .error e =>
          .error (lit "failed to decode param " ++ Strconv.itoa i ++ lit ": " ++ e)
        | .ok (value, pos) =>
          match decodeParams data nullBitmap (some types) remaining (i + 1) pos with
          | .ok params => .ok (value :: params)
          | failure => failure

def decodeStmtParams (data : List UInt8) (query : GoString) : Decoded (List Value) :=
  if data.length < 10 then .error (lit "packet too short")
  else
    let numParams := Strings.count query 63
    if numParams = 0 then .ok []
    else
      let nullBitmapLen := (numParams + 7) / 8
      if data.length < 10 + nullBitmapLen then .error (lit "packet too short for null bitmap")
      else
        let nullBitmap := (data.drop 9).take nullBitmapLen
        let pos := 9 + nullBitmapLen
        if data.length ≤ pos then .error (lit "packet too short for new_params_bound_flag")
        else if data.getD pos 0 = 1 then
          if data.length < pos + 1 + numParams * 2 then
            .error (lit "packet too short for parameter types")
          else
            decodeParams data nullBitmap (some ((data.drop (pos + 1)).take (numParams * 2)))
              numParams 0 (pos + 1 + numParams * 2)
        else decodeParams data nullBitmap none numParams 0 (pos + 1)

theorem decodeParams_length {data nullBitmap : List UInt8} {types : Option (List UInt8)}
    {remaining i pos : Nat} {params : List Value}
    (decoded : decodeParams data nullBitmap types remaining i pos = .ok params) :
    params.length = remaining := by
  induction remaining generalizing i pos params with
  | zero =>
    cases decoded
    rfl
  | succ remaining ih =>
    unfold decodeParams at decoded
    split at decoded
    · split at decoded
      · rename_i rest read
        cases decoded
        rw [List.length_cons, ih read]
      · rename_i failed
        exact absurd decoded (failed params)
    · split at decoded
      · cases decoded
      · split at decoded
        · cases decoded
        · cases decoded
        · split at decoded
          · rename_i rest read
            cases decoded
            rw [List.length_cons, ih read]
          · rename_i failed
            exact absurd decoded (failed params)

theorem decodeStmtParams_length {data : List UInt8} {query : GoString}
    {params : List Value} (decoded : decodeStmtParams data query = .ok params) :
    params.length = Strings.count query 63 := by
  unfold decodeStmtParams at decoded
  split at decoded
  · cases decoded
  dsimp only at decoded
  split at decoded
  · rename_i none
    cases decoded
    exact none.symm
  split at decoded
  · cases decoded
  split at decoded
  · cases decoded
  split at decoded
  · split at decoded
    · cases decoded
    · exact decodeParams_length decoded
  · exact decodeParams_length decoded

end TQDBProxy.MariaDB
