import TQDBProxy.CheckedSlices
import TQDBProxy.StatementParams

/-! The decoding of a COM_STMT_EXECUTE packet with every index and slice operation and every
64-bit sum of the code written out. It computes what `decodeStmtParams` does. -/

namespace TQDBProxy.MariaDB

open Slices

namespace Decoded

variable {α β : Type}

def bind (x : Decoded α) (f : α → Decoded β) : Decoded β :=
  match x with
  | .ok value => f value
  | .error e => .error e
  | .panics => .panics

instance : Monad Decoded where
  pure := .ok
  bind := bind

def inRange : Option α → Decoded α
  | some value => .ok value
  | none => .panics

def returns (x : Decoded α) : Prop := (∃ value, x = .ok value) ∨ ∃ e, x = .error e

inductive Failure where
  | error
  | panic

def failure : Decoded α → Option Failure
  | .ok _ => none
  | .error _ => some .error
  | .panics => some .panic

@[simp] theorem ok_bind (value : α) (f : α → Decoded β) :
    (Decoded.ok value >>= f) = f value := rfl

@[simp] theorem pure_eq (value : α) : (pure value : Decoded α) = .ok value := rfl

@[simp] theorem inRange_some (value : α) : inRange (some value) = .ok value := rfl

theorem failure_bind_ok {x : Decoded α} {f : α → β} :
    (x >>= fun value => .ok (f value)).failure = x.failure := by
  cases x <;> rfl

theorem failure_panic_iff {x : Decoded α} : x.failure = some .panic ↔ x = .panics := by
  cases x <;> simp [failure]

theorem failure_error_iff {x : Decoded α} : x.failure = some .error ↔ ∃ e, x = .error e := by
  cases x <;> simp [failure]

theorem returns_iff {x : Decoded α} : x.returns ↔ x ≠ .panics := by
  cases x <;> simp [returns]

end Decoded

open Decoded (inRange)

namespace Bounded

def decodeLengthEncodedInt (data : List UInt8) : Decoded (Nat × Int) :=
  if data.length = 0 then pure (0, 0)
  else do
    let first ← inRange (index data 0)
    if first = 0xfb then pure (0, 1)
    else if first = 0xfc then
      if data.length < 3 then pure (0, 0)
      else do
        let a ← inRange (index data 1)
        let b ← inRange (index data 2)
        pure (Binary.littleEndian [a, b], 3)
    else if first = 0xfd then
      if data.length < 4 then pure (0, 0)
      else do
        let a ← inRange (index data 1)
        let b ← inRange (index data 2)
        let c ← inRange (index data 3)
        pure (Binary.littleEndian [a, b, c], 4)
    else if first = 0xfe then
      if data.length < 9 then pure (0, 0)
      else do
        let bytes ← inRange (slice data 1 9)
        pure (Binary.littleEndian bytes, 9)
    else pure (first.toNat, 1)

def decodeTiny (data : List UInt8) (pos : Int) (unsigned : Bool) : Decoded (Value × Int) :=
  if (data.length : Int) < int64 (pos + 1) then .error (lit "not enough data for " ++ lit "TINY")
  else do
    let byte ← inRange (index data pos)
    pure (if unsigned then .uint byte.toNat else .int (Int.bmod byte.toNat (1 <<< 8)),
      int64 (pos + 1))

def decodeFixed (data : List UInt8) (pos : Int) (width : Nat) (unsigned : Bool) (name : String) :
    Decoded (Value × Int) :=
  if (data.length : Int) < int64 (pos + width) then
    .error (lit "not enough data for " ++ lit name)
  else do
    let bytes ← inRange (slice data pos (int64 (pos + width)))
    let value := Binary.littleEndian bytes
    pure (if unsigned then .uint value else .int (Int.bmod value (1 <<< (8 * width))),
      int64 (pos + width))

def decodeString (data : List UInt8) (pos : Int) : Decoded (Value × Int) := do
  let rest ← inRange (slice data pos data.length)
  let (strLen, n) ← decodeLengthEncodedInt rest
  if n = 0 then .error (lit "failed to decode string length")
  else do
    let pos := int64 (pos + n)
    let stop := int64 (pos + int64 strLen)
    if (data.length : Int) < stop then .error (lit "not enough data for string")
    else do
      let bytes ← inRange (slice data pos stop)
      pure (.string bytes, stop)

def decodeParamValue (data : List UInt8) (pos : Int) (fieldType : UInt8) (unsigned : Bool) :
    Decoded (Value × Int) :=
  if fieldType = 0x01 then decodeTiny data pos unsigned
  else if fieldType = 0x02 then decodeFixed data pos 2 unsigned "SHORT"
  else if fieldType = 0x03 then decodeFixed data pos 4 unsigned "LONG"
  else if fieldType = 0x08 then decodeFixed data pos 8 unsigned "LONGLONG"
  else if fieldType = 0xfe ∨ fieldType = 0xfd then decodeString data pos
  else
    .error (lit "unsupported field type: 0x" ++
      [hexDigit (fieldType.toNat / 16), hexDigit (fieldType.toNat % 16)])

def decodeParams (data nullBitmap : List UInt8) (types : Option (List UInt8)) :
    Nat → Nat → Int → Decoded (List Value)
  | 0, _, _ => pure []
  | remaining + 1, i, pos => do
    let byte ← inRange (index nullBitmap (i / 8 : Nat))
    if byte.toNat.testBit (i % 8) then do
      let params ← decodeParams data nullBitmap types remaining (i + 1) pos
      pure (.null :: params)
    else
      match types with
      | none => .error (lit "cannot decode parameters without type information")
      | some paramTypes => do
        let fieldType ← inRange (index paramTypes (int64 (i * 2)))
        let flags ← inRange (index paramTypes (int64 (int64 (i * 2) + 1)))
        match decodeParamValue data pos fieldType (flags == 0x80) with
        | .panics => .panics
        | .error e => .error (lit "failed to decode param " ++ Strconv.itoa i ++ lit ": " ++ e)
        | .ok (value, pos) => do
          let params ← decodeParams data nullBitmap types remaining (i + 1) pos
          pure (value :: params)

def decodeStmtParams (data : List UInt8) (query : GoString) : Decoded (List Value) :=
  if data.length < 10 then .error (lit "packet too short")
  else
    let numParams := Strings.count query 63
    if numParams = 0 then pure []
    else
      let nullBitmapLen := (int64 (numParams + 7)).tdiv 8
      if (data.length : Int) < int64 (10 + nullBitmapLen) then
        .error (lit "packet too short for null bitmap")
      else do
        let nullBitmap ← inRange (slice data 9 (int64 (9 + nullBitmapLen)))
        let pos := int64 (9 + nullBitmapLen)
        if (data.length : Int) ≤ pos then
          .error (lit "packet too short for new_params_bound_flag")
        else do
          let newParamsBound ← inRange (index data pos)
          let pos := int64 (pos + 1)
          if newParamsBound = 1 then
            let typesLen := int64 (numParams * 2)
            if (data.length : Int) < int64 (pos + typesLen) then
              .error (lit "packet too short for parameter types")
            else do
              let paramTypes ← inRange (slice data pos (int64 (pos + typesLen)))
              decodeParams data nullBitmap (some paramTypes) numParams 0 (int64 (pos + typesLen))
          else decodeParams data nullBitmap none numParams 0 pos

end Bounded

/-! The lengths -/

theorem littleEndian_lt (bytes : List UInt8) : Binary.littleEndian bytes < 256 ^ bytes.length := by
  induction bytes with
  | nil => simp [Binary.littleEndian]
  | cons b bytes ih =>
    have byte := b.toNat_lt
    have step : Binary.littleEndian (b :: bytes) = b.toNat + 256 * Binary.littleEndian bytes := rfl
    rw [step, List.length_cons, Nat.pow_succ]
    omega

theorem bounded_lengthEncodedInt (data : List UInt8) :
    Bounded.decodeLengthEncodedInt data =
      .ok ((decodeLengthEncodedInt data).1, ((decodeLengthEncodedInt data).2 : Int)) := by
  cases data with
  | nil => rfl
  | cons first rest =>
    have head : index (first :: rest) 0 = some first := by simp [index]
    have nonempty : (first :: rest).length ≠ 0 := by simp
    rw [Bounded.decodeLengthEncodedInt, if_neg nonempty, head, Decoded.inRange_some,
      Decoded.ok_bind, decodeLengthEncodedInt]
    by_cases null : first = 0xfb
    · rw [if_pos null, if_pos null]
      rfl
    rw [if_neg null, if_neg null]
    by_cases two : first = 0xfc
    · rw [if_pos two, if_pos two]
      match rest with
      | [] => rfl
      | [_] => rfl
      | a :: b :: rest =>
        have long : ¬ rest.length + 1 + 1 + 1 < 3 := by omega
        have long' : ¬ rest.length + 1 + 1 < 2 := by omega
        simp [index, long, long']
    rw [if_neg two, if_neg two]
    by_cases three : first = 0xfd
    · rw [if_pos three, if_pos three]
      match rest with
      | [] => rfl
      | [_] => rfl
      | [_, _] => rfl
      | a :: b :: c :: rest =>
        have long : ¬ rest.length + 1 + 1 + 1 + 1 < 4 := by omega
        have long' : ¬ rest.length + 1 + 1 + 1 < 3 := by omega
        simp [index, long, long']
    rw [if_neg three, if_neg three]
    by_cases eight : first = 0xfe
    · rw [if_pos eight, if_pos eight]
      by_cases short : rest.length < 8
      · rw [if_pos (by rw [List.length_cons]; omega), if_pos short]
        rfl
      · have bytes : slice (first :: rest) 1 9 = some (rest.take 8) :=
          slice_of_le (i := 1) (j := 9) (by omega) (by simp; omega)
        rw [if_neg (by rw [List.length_cons]; omega), if_neg short, bytes]
        rfl
    · rw [if_neg eight, if_neg eight]
      rfl

theorem lengthEncodedInt_cases (data : List UInt8) :
    (decodeLengthEncodedInt data).2 ≤ data.length ∧
      ((decodeLengthEncodedInt data).1 < 2 ^ 24 ∨
        data[0]? = some 0xfe ∧ 9 ≤ data.length ∧
          decodeLengthEncodedInt data = (Binary.littleEndian ((data.drop 1).take 8), 9)) := by
  cases data with
  | nil => simp [decodeLengthEncodedInt]
  | cons first rest =>
    rw [decodeLengthEncodedInt]
    split
    · simp
    split
    · split
      · simp
      · have bound := littleEndian_lt (rest.take 2)
        rw [List.length_take, Nat.min_eq_left (by omega)] at bound
        refine ⟨by simp; omega, .inl (by omega)⟩
    split
    · split
      · simp
      · have bound := littleEndian_lt (rest.take 3)
        rw [List.length_take, Nat.min_eq_left (by omega)] at bound
        refine ⟨by simp; omega, .inl (by omega)⟩
    split
    · split
      · simp
      · rename_i first _
        refine ⟨by simp; omega, .inr ⟨by simpa using first, by simp; omega, rfl⟩⟩
    · have bound := first.toNat_lt
      refine ⟨by simp, .inl (by omega)⟩

theorem lengthEncodedInt_eight {data : List UInt8} (first : data[0]? = some 0xfe)
    (long : 9 ≤ data.length) :
    decodeLengthEncodedInt data = (Binary.littleEndian ((data.drop 1).take 8), 9) := by
  cases data with
  | nil => simp at long
  | cons b rest =>
    obtain rfl : b = 0xfe := by simpa using first
    have enough : ¬ rest.length < 8 := by
      rw [List.length_cons] at long
      omega
    simp [decodeLengthEncodedInt, enough]

theorem lengthEncodedInt_lt (data : List UInt8) : (decodeLengthEncodedInt data).1 < 2 ^ 64 := by
  rcases (lengthEncodedInt_cases data).2 with small | ⟨-, -, eq⟩
  · omega
  · have bound := littleEndian_lt ((data.drop 1).take 8)
    have width : ((data.drop 1).take 8).length ≤ 8 := List.length_take_le 8 _
    rw [eq]
    calc Binary.littleEndian ((data.drop 1).take 8)
        < 256 ^ ((data.drop 1).take 8).length := bound
      _ ≤ 256 ^ 8 := Nat.pow_le_pow_right (by omega) width
      _ = 2 ^ 64 := by decide

/-! The values -/

theorem decodeFixed_ne_panics (data : List UInt8) (pos width : Nat) (unsigned : Bool)
    (name : String) : decodeFixed data pos width unsigned name ≠ .panics := by
  rw [decodeFixed]
  split <;> simp

def positioned (x : Decoded (Value × Nat)) : Decoded (Value × Int) :=
  x.bind fun (value, pos) => .ok (value, (pos : Int))

section Values

variable {data : List UInt8} {pos : Nat}

theorem bounded_fixed (short : Addressable data) (inside : pos ≤ data.length) {width : Nat}
    (narrow : width ≤ 8) (unsigned : Bool) (name : String) :
    Bounded.decodeFixed data pos width unsigned name =
      positioned (decodeFixed data pos width unsigned name) := by
  have sum : int64 ((pos : Int) + width) = (pos + width : Nat) :=
    int64_add (by unfold Addressable at short; omega)
  rw [Bounded.decodeFixed, decodeFixed, sum]
  by_cases cut : data.length < pos + width
  · rw [if_pos (by omega), if_pos cut]
    rfl
  · have bytes : slice data pos (pos + width : Nat) = some ((data.drop pos).take width) := by
      rw [slice_of_le (by omega) (by omega), Nat.add_sub_cancel_left]
    rw [if_neg (by omega), if_neg cut, bytes]
    rfl

theorem bounded_tiny (short : Addressable data) (inside : pos ≤ data.length) (unsigned : Bool) :
    Bounded.decodeTiny data pos unsigned = positioned (decodeFixed data pos 1 unsigned "TINY") := by
  have sum : int64 ((pos : Int) + 1) = (pos + 1 : Nat) :=
    int64_of_lt (n := pos + 1) (by unfold Addressable at short; omega)
  rw [Bounded.decodeTiny, decodeFixed, sum]
  by_cases cut : data.length < pos + 1
  · rw [if_pos (by omega), if_pos cut]
    rfl
  · have here : pos < data.length := by omega
    have byte : (data.drop pos).take 1 = [data[pos]] := by
      rw [List.drop_eq_getElem_cons here]
      rfl
    rw [if_neg (by omega), if_neg cut, index_of_lt here, byte]
    simp [positioned, Decoded.bind, Binary.littleEndian]

theorem bounded_string (short : Addressable data) (inside : pos ≤ data.length) :
    Bounded.decodeString data pos = positioned (decodeString data pos) := by
  have rest : slice data pos data.length = some (data.drop pos) := by
    rw [slice_of_le inside (Nat.le_refl _), List.take_of_length_le (by simp)]
  rw [Bounded.decodeString, decodeString, rest, if_neg (by omega)]
  simp only [Decoded.inRange_some, Decoded.ok_bind, bounded_lengthEncodedInt]
  have read := (lengthEncodedInt_cases (data.drop pos)).1
  generalize decodeLengthEncodedInt (data.drop pos) = decoded at read ⊢
  obtain ⟨strLen, n⟩ := decoded
  rw [List.length_drop] at read
  dsimp only at read ⊢
  by_cases none : n = 0
  · rw [if_pos (by omega), if_pos none]
    rfl
  · have sum : int64 ((pos : Int) + n) = (pos + n : Nat) :=
      int64_add (by unfold Addressable at short; omega)
    have stop : int64 ((pos + n : Nat) + int64 strLen) = int64 (pos + n + strLen : Nat) := by
      rw [int64_add_int64, Int.natCast_add]
      rfl
    rw [if_neg (by omega), if_neg none, sum, stop, ← int64]
    generalize int64 (pos + n + strLen : Nat) = stop
    by_cases past : (data.length : Int) < stop
    · rw [if_pos past, if_pos past]
      rfl
    rw [if_neg past, if_neg past]
    by_cases crossed : stop < (pos + n : Nat)
    · rw [slice_of_lt crossed, if_pos crossed]
      rfl
    · obtain ⟨j, rfl⟩ : ∃ j : Nat, stop = j := ⟨stop.toNat, by omega⟩
      rw [slice_of_le (by omega) (by omega), if_neg crossed]
      rfl

theorem bounded_paramValue (short : Addressable data) (inside : pos ≤ data.length)
    (fieldType : UInt8) (unsigned : Bool) :
    Bounded.decodeParamValue data pos fieldType unsigned =
      positioned (decodeParamValue data pos fieldType unsigned) := by
  rw [Bounded.decodeParamValue, decodeParamValue, bounded_tiny short inside,
    bounded_fixed short inside (by omega), bounded_fixed short inside (by omega),
    bounded_fixed short inside (by omega), bounded_string short inside]
  split
  · rfl
  split
  · rfl
  split
  · rfl
  split
  · rfl
  split <;> rfl

/-- The eight bytes of the length take the end of the string past the integers. -/
def lengthWraps (data : List UInt8) (pos : Nat) : Bool :=
  data[pos]? == some 0xfe && pos + 9 ≤ data.length &&
    2 ^ 63 ≤ pos + 9 + Binary.littleEndian ((data.drop (pos + 1)).take 8)

theorem decodeString_eq (inside : pos ≤ data.length) {strLen n : Nat}
    (decoded : decodeLengthEncodedInt (data.drop pos) = (strLen, n)) :
    decodeString data pos =
      if n = 0 then .error (lit "failed to decode string length")
      else if (data.length : Int) < int64 (pos + n + strLen : Nat) then
        .error (lit "not enough data for string")
      else if int64 (pos + n + strLen : Nat) < (pos + n : Nat) then .panics
      else .ok (.string ((data.drop (pos + n)).take
        ((int64 (pos + n + strLen : Nat)).toNat - (pos + n))),
        (int64 (pos + n + strLen : Nat)).toNat) := by
  rw [decodeString, if_neg (by omega), decoded]
  rfl

theorem decodeString_panics_of_wraps (short : Addressable data) (inside : pos ≤ data.length)
    (wraps : lengthWraps data pos = true) : decodeString data pos = .panics := by
  simp only [lengthWraps, Bool.and_eq_true, beq_iff_eq, decide_eq_true_eq] at wraps
  obtain ⟨⟨first, long⟩, large⟩ := wraps
  have eight : decodeLengthEncodedInt (data.drop pos) =
      (Binary.littleEndian (((data.drop pos).drop 1).take 8), 9) :=
    lengthEncodedInt_eight (by simpa using first) (by rw [List.length_drop]; omega)
  have bound := lengthEncodedInt_lt (data.drop pos)
  rw [eight] at bound
  rw [List.drop_drop] at eight bound
  generalize Binary.littleEndian ((data.drop (pos + 1)).take 8) = strLen at *
  unfold Addressable at short
  have stop : int64 (pos + 9 + strLen : Nat) = (pos + 9 + strLen : Nat) - 2 ^ 64 :=
    int64_of_ge large (by omega)
  rw [decodeString_eq inside eight, stop, if_neg (by omega), if_neg (by omega), if_pos (by omega)]

theorem decodeString_panics_iff (short : Addressable data) (inside : pos ≤ data.length) :
    decodeString data pos = .panics ↔ lengthWraps data pos = true := by
  refine ⟨fun panics => ?_, decodeString_panics_of_wraps short inside⟩
  obtain ⟨read, form⟩ := lengthEncodedInt_cases (data.drop pos)
  generalize decoded : decodeLengthEncodedInt (data.drop pos) = result at read form
  obtain ⟨strLen, n⟩ := result
  rw [decodeString_eq inside decoded] at panics
  rw [List.length_drop] at read form
  dsimp only at read form
  unfold Addressable at short
  -- a sum that does not wrap is not below its first term
  have large : 2 ^ 63 ≤ pos + n + strLen := by
    by_contra small
    rw [int64_of_lt (by omega)] at panics
    split at panics
    · cases panics
    split at panics
    · cases panics
    split at panics
    · omega
    · cases panics
  rcases form with small | ⟨first, long, eq⟩
  · omega
  · obtain ⟨rfl, rfl⟩ := Prod.mk.inj eq
    rw [List.drop_drop] at large
    simp only [lengthWraps, Bool.and_eq_true, beq_iff_eq, decide_eq_true_eq]
    exact ⟨⟨by simpa using first, by omega⟩, large⟩

def isString (fieldType : UInt8) : Bool := fieldType == 0xfe || fieldType == 0xfd

theorem decodeParamValue_panics_iff (short : Addressable data) (inside : pos ≤ data.length)
    (fieldType : UInt8) (unsigned : Bool) :
    decodeParamValue data pos fieldType unsigned = .panics ↔
      isString fieldType = true ∧ lengthWraps data pos = true := by
  rw [← decodeString_panics_iff short inside, decodeParamValue, isString, Bool.or_eq_true,
    beq_iff_eq, beq_iff_eq]
  have fixed := decodeFixed_ne_panics data pos
  split
  · rename_i type
    simp [fixed, type]
  split
  · rename_i type
    simp [fixed, type]
  split
  · rename_i type
    simp [fixed, type]
  split
  · rename_i type
    simp [fixed, type]
  split
  · rename_i type
    simp [type]
  · rename_i type
    simp [type]

/-- The width of an integer type. -/
def intWidth (fieldType : UInt8) : Option Nat :=
  if fieldType = 0x01 then some 1
  else if fieldType = 0x02 then some 2
  else if fieldType = 0x03 then some 4
  else if fieldType = 0x08 then some 8
  else none

/-- Where the value at a position ends; none where it runs past the end of the packet or is
of an unknown type. -/
def valueEnd (data : List UInt8) (pos : Nat) (fieldType : UInt8) : Option Nat :=
  match intWidth fieldType with
  | some width => if data.length < pos + width then none else some (pos + width)
  | none =>
    if isString fieldType then
      let (strLen, n) := decodeLengthEncodedInt (data.drop pos)
      if n = 0 ∨ data.length < pos + n + strLen then none else some (pos + n + strLen)
    else none

def Decoded.next : Decoded (Value × Nat) → Option Nat
  | .ok (_, next) => some next
  | _ => none

theorem decodeString_next (short : Addressable data) (inside : pos ≤ data.length)
    {strLen n : Nat} (decoded : decodeLengthEncodedInt (data.drop pos) = (strLen, n)) :
    (decodeString data pos).next =
      if n = 0 ∨ data.length < pos + n + strLen then none else some (pos + n + strLen) := by
  have read := (lengthEncodedInt_cases (data.drop pos)).1
  have bound := lengthEncodedInt_lt (data.drop pos)
  rw [decoded, List.length_drop] at read
  rw [decoded] at bound
  dsimp only at read bound
  unfold Addressable at short
  rw [decodeString_eq inside decoded]
  by_cases none : n = 0
  · rw [if_pos none, if_pos (.inl none)]
    rfl
  rw [if_neg none]
  by_cases large : 2 ^ 63 ≤ pos + n + strLen
  · rw [int64_of_ge large (by omega), if_neg (by omega), if_pos (by omega),
      if_pos (.inr (by omega))]
    rfl
  · rw [int64_of_lt (by omega)]
    by_cases past : data.length < pos + n + strLen
    · rw [if_pos (by omega), if_pos (.inr past)]
      rfl
    · rw [if_neg (by omega), if_neg (by omega), if_neg (by simp [none, past])]
      rfl

theorem decodeFixed_next (width : Nat) (unsigned : Bool) (name : String) :
    (decodeFixed data pos width unsigned name).next =
      if data.length < pos + width then none else some (pos + width) := by
  rw [decodeFixed]
  split <;> rfl

theorem decodeParamValue_next (short : Addressable data) (inside : pos ≤ data.length)
    (fieldType : UInt8) (unsigned : Bool) :
    (decodeParamValue data pos fieldType unsigned).next = valueEnd data pos fieldType := by
  rw [decodeParamValue, valueEnd, intWidth]
  by_cases tiny : fieldType = 0x01
  · rw [if_pos tiny, if_pos tiny]
    exact decodeFixed_next 1 ..
  rw [if_neg tiny, if_neg tiny]
  by_cases two : fieldType = 0x02
  · rw [if_pos two, if_pos two]
    exact decodeFixed_next 2 ..
  rw [if_neg two, if_neg two]
  by_cases long : fieldType = 0x03
  · rw [if_pos long, if_pos long]
    exact decodeFixed_next 4 ..
  rw [if_neg long, if_neg long]
  by_cases longlong : fieldType = 0x08
  · rw [if_pos longlong, if_pos longlong]
    exact decodeFixed_next 8 ..
  rw [if_neg longlong, if_neg longlong]
  by_cases string : fieldType = 0xfe ∨ fieldType = 0xfd
  · rcases decoded : decodeLengthEncodedInt (data.drop pos) with ⟨strLen, n⟩
    have is : isString fieldType = true := by simpa [isString] using string
    rw [if_pos string, decodeString_next short inside decoded]
    simp [is]
  · have other : isString fieldType = false := by simpa [isString] using string
    rw [if_neg string]
    simp [other, Decoded.next]

theorem valueEnd_le {fieldType : UInt8} {next : Nat}
    (ends : valueEnd data pos fieldType = some next) : next ≤ data.length := by
  unfold valueEnd at ends
  split at ends
  · split_ifs at ends
    cases ends
    omega
  · split_ifs at ends
    dsimp only at ends
    split_ifs at ends
    cases ends
    omega

end Values

/-! The loop over the parameters -/

section Loop

variable {data nullBitmap : List UInt8}

theorem index_getD {i : Nat} (bytes : List UInt8) (inside : i < bytes.length) :
    index bytes i = some (bytes.getD i 0) := by
  simp [index_of_lt inside, List.getD, inside]

theorem bounded_params (short : Addressable data) {types : Option (List UInt8)}
    (numParams : Nat) (bits : numParams ≤ 8 * nullBitmap.length)
    (pairs : ∀ paramTypes, types = some paramTypes → paramTypes.length = 2 * numParams)
    (few : numParams < 2 ^ 60) (remaining i pos : Nat) (count : i + remaining = numParams)
    (inside : pos ≤ data.length) :
    Bounded.decodeParams data nullBitmap types remaining i pos =
      decodeParams data nullBitmap types remaining i pos := by
  induction remaining generalizing i pos with
  | zero => rfl
  | succ remaining ih =>
    have bit : index nullBitmap (i / 8 : Nat) = some (nullBitmap.getD (i / 8) 0) :=
      index_getD _ (by omega)
    unfold Bounded.decodeParams decodeParams
    rw [bit, Decoded.inRange_some, Decoded.ok_bind]
    by_cases null : (nullBitmap.getD (i / 8) 0).toNat.testBit (i % 8) = true
    · rw [if_pos null, if_pos null, ih (i + 1) pos (by omega) inside]
      cases decodeParams data nullBitmap types remaining (i + 1) pos <;> rfl
    rw [if_neg null, if_neg null]
    cases types with
    | none => rfl
    | some paramTypes =>
      have length := pairs paramTypes rfl
      have twice : int64 ((i : Int) * 2) = (2 * i : Nat) := by
        rw [← int64_of_lt (n := 2 * i) (by omega)]
        congr 1
        omega
      have next : int64 (((2 * i : Nat) : Int) + 1) = (2 * i + 1 : Nat) :=
        int64_of_lt (n := 2 * i + 1) (by omega)
      have type := index_getD (i := 2 * i) paramTypes (by omega)
      have flags := index_getD (i := 2 * i + 1) paramTypes (by omega)
      simp only [twice, next, type, flags, Decoded.inRange_some, Decoded.ok_bind,
        bounded_paramValue short inside]
      cases read : decodeParamValue data pos (paramTypes.getD (2 * i) 0)
          (paramTypes.getD (2 * i + 1) 0 == 0x80) with
      | panics => rfl
      | error e => rfl
      | ok result =>
        obtain ⟨value, after⟩ := result
        have ends := decodeParamValue_next short inside (paramTypes.getD (2 * i) 0)
          (paramTypes.getD (2 * i + 1) 0 == 0x80)
        rw [read] at ends
        have same := ih (i + 1) after (by omega) (valueEnd_le ends.symm)
        simp only [positioned, Decoded.bind, same]
        cases decodeParams data nullBitmap (some paramTypes) remaining (i + 1) after <;> rfl

end Loop

theorem bounded_stmtParams {data : List UInt8} {query : GoString} (short : Addressable data)
    (shortQuery : Addressable query) :
    Bounded.decodeStmtParams data query = decodeStmtParams data query := by
  have few : Strings.count query 63 ≤ query.length := List.count_le_length
  rw [Bounded.decodeStmtParams, decodeStmtParams]
  generalize Strings.count query 63 = numParams at few
  have shortData := short
  unfold Addressable at shortQuery shortData
  split
  · rfl
  dsimp only
  by_cases none : numParams = 0
  · rw [if_pos none, if_pos none]
    rfl
  have bitmapLen : (int64 ((numParams : Int) + 7)).tdiv 8 = ((numParams + 7) / 8 : Nat) := by
    rw [show int64 ((numParams : Int) + 7) = (numParams + 7 : Nat) from
      int64_of_lt (n := numParams + 7) (by omega)]
    exact (Int.ofNat_tdiv (numParams + 7) 8).symm
  rw [if_neg none, if_neg none, bitmapLen]
  generalize bytes : (numParams + 7) / 8 = nullBitmapLen
  have ten : int64 (10 + (nullBitmapLen : Int)) = (10 + nullBitmapLen : Nat) :=
    int64_of_lt (n := 10 + nullBitmapLen) (by omega)
  have nine : int64 (9 + (nullBitmapLen : Int)) = (9 + nullBitmapLen : Nat) :=
    int64_of_lt (n := 9 + nullBitmapLen) (by omega)
  rw [ten, nine]
  by_cases cut : data.length < 10 + nullBitmapLen
  · rw [if_pos (by omega), if_pos cut]
  have bitmap :
      slice data 9 (9 + nullBitmapLen : Nat) = some ((data.drop 9).take nullBitmapLen) := by
    have whole : slice data (9 : Nat) (9 + nullBitmapLen : Nat) = _ :=
      slice_of_le (by omega) (by omega)
    rwa [Nat.add_sub_cancel_left] at whole
  have bitmapLength : ((data.drop 9).take nullBitmapLen).length = nullBitmapLen := by
    rw [List.length_take, List.length_drop]
    omega
  have flag : index data (9 + nullBitmapLen : Nat) = some (data.getD (9 + nullBitmapLen) 0) :=
    index_getD _ (by omega)
  have after : int64 (((9 + nullBitmapLen : Nat) : Int) + 1) = (9 + nullBitmapLen + 1 : Nat) :=
    int64_of_lt (n := 9 + nullBitmapLen + 1) (by omega)
  rw [if_neg (by omega), if_neg cut, bitmap, Decoded.inRange_some, Decoded.ok_bind,
    if_neg (show ¬ (data.length : Int) ≤ (9 + nullBitmapLen : Nat) by omega),
    if_neg (show ¬ data.length ≤ 9 + nullBitmapLen by omega), flag, Decoded.inRange_some,
    Decoded.ok_bind, after]
  by_cases bound : data.getD (9 + nullBitmapLen) 0 = 1
  · rw [if_pos bound, if_pos bound]
    have twice : int64 ((numParams : Int) * 2) = (numParams * 2 : Nat) :=
      int64_of_lt (n := numParams * 2) (by omega)
    have stop : int64 (((9 + nullBitmapLen + 1 : Nat) : Int) + (numParams * 2 : Nat)) =
        (9 + nullBitmapLen + 1 + numParams * 2 : Nat) :=
      int64_of_lt (n := 9 + nullBitmapLen + 1 + numParams * 2) (by omega)
    rw [twice, stop]
    clear twice stop ten nine after bitmapLen
    by_cases missing : data.length < 9 + nullBitmapLen + 1 + numParams * 2
    · rw [if_pos (by omega), if_pos missing]
    rw [if_neg (by omega), if_neg missing, slice_of_le (by omega) (by omega),
      Nat.add_sub_cancel_left, Decoded.inRange_some, Decoded.ok_bind]
    refine bounded_params short numParams (by omega) ?_ (by omega) numParams 0 _
      (by omega) (by omega)
    rintro paramTypes ⟨⟩
    rw [List.length_take, List.length_drop]
    omega
  · rw [if_neg bound, if_neg bound]
    exact bounded_params short numParams (by omega) (by simp) (by omega) numParams
      0 _ (by omega) (by omega)

/-! Where an operation leaves the packet -/

def nullAt (nullBitmap : List UInt8) (i : Nat) : Bool :=
  (nullBitmap.getD (i / 8) 0).toNat.testBit (i % 8)

theorem exists_from_iff {P : Nat → Prop} (i remaining : Nat) :
    (∃ j, i ≤ j ∧ j < i + (remaining + 1) ∧ P j) ↔
      P i ∨ ∃ j, i + 1 ≤ j ∧ j < i + 1 + remaining ∧ P j := by
  constructor
  · rintro ⟨j, low, high, found⟩
    by_cases first : j = i
    · exact .inl (first ▸ found)
    · exact .inr ⟨j, by omega, by omega, found⟩
  · rintro (found | ⟨j, low, high, found⟩)
    · exact ⟨i, Nat.le_refl _, by omega, found⟩
    · exact ⟨j, by omega, by omega, found⟩

structure Sent where
  data : List UInt8
  nullBitmap : List UInt8
  types : List UInt8
  start : Nat
  inside : start ≤ data.length

namespace Sent

def isNull (p : Sent) (i : Nat) : Bool := nullAt p.nullBitmap i

def fieldType (p : Sent) (i : Nat) : UInt8 := p.types.getD (2 * i) 0

def read (p : Sent) (i pos : Nat) : Decoded (Value × Nat) :=
  decodeParamValue p.data pos (p.fieldType i) (p.types.getD (2 * i + 1) 0 == 0x80)

/-- Where value `i` starts, when the values before it are in the packet. -/
def valueStart (p : Sent) : Nat → Option Nat
  | 0 => some p.start
  | i + 1 =>
    match p.valueStart i with
    | none => none
    | some pos => if p.isNull i then some pos else valueEnd p.data pos (p.fieldType i)

/-- Value `i` is reached, and it is a string whose length wraps. -/
def wraps (p : Sent) (i : Nat) : Bool :=
  match p.valueStart i with
  | none => false
  | some pos => !p.isNull i && isString (p.fieldType i) && lengthWraps p.data pos

theorem valueStart_le (p : Sent) {i pos : Nat} (starts : p.valueStart i = some pos) :
    pos ≤ p.data.length := by
  induction i generalizing pos with
  | zero =>
    cases starts
    exact p.inside
  | succ i ih =>
    rw [valueStart] at starts
    split at starts
    · cases starts
    · rename_i before eq
      split at starts
      · cases starts
        exact ih eq
      · exact valueEnd_le starts

/-- Value `i` is reached, and it runs past the end of the packet or is of an unknown type. -/
def cutOff (p : Sent) (i : Nat) : Bool :=
  match p.valueStart i with
  | none => false
  | some pos => !p.isNull i && (valueEnd p.data pos (p.fieldType i)).isNone &&
      !(isString (p.fieldType i) && lengthWraps p.data pos)

def FailsAt (p : Sent) (f : Decoded.Failure) (i : Nat) : Prop :=
  ∃ pos, p.valueStart i = some pos ∧ p.isNull i = false ∧ (p.read i pos).failure = some f

theorem valueStart_none (p : Sent) {i j : Nat} (ended : p.valueStart i = none) (later : i ≤ j) :
    p.valueStart j = none := by
  induction later with
  | refl => exact ended
  | step _ ih => simp [valueStart, ih]

theorem wraps_iff (p : Sent) (short : Addressable p.data) (i : Nat) :
    p.FailsAt .panic i ↔ p.wraps i = true := by
  unfold FailsAt wraps
  cases starts : p.valueStart i with
  | none => simp
  | some pos =>
    have here : p.read i pos = .panics ↔ _ :=
      decodeParamValue_panics_iff short (p.valueStart_le starts) (p.fieldType i) _
    simp [Decoded.failure_panic_iff, here, and_assoc]

theorem cutOff_iff (p : Sent) (short : Addressable p.data) (i : Nat) :
    p.FailsAt .error i ↔ p.cutOff i = true := by
  unfold FailsAt cutOff
  cases starts : p.valueStart i with
  | none => simp
  | some pos =>
    have panics : p.read i pos = .panics ↔ _ :=
      decodeParamValue_panics_iff short (p.valueStart_le starts) (p.fieldType i) _
    have ends : (p.read i pos).next = _ :=
      decodeParamValue_next short (p.valueStart_le starts) (p.fieldType i) _
    have here : (p.read i pos).failure = some .error ↔
        (p.read i pos).next = none ∧ p.read i pos ≠ .panics := by
      cases p.read i pos <;> simp [Decoded.failure, Decoded.next]
    simp [here, ends, panics, and_assoc, imp_iff_not_or]

theorem decodeParams_succ (p : Sent) (remaining i pos : Nat) :
    decodeParams p.data p.nullBitmap (some p.types) (remaining + 1) i pos =
      if p.isNull i then
        decodeParams p.data p.nullBitmap (some p.types) remaining (i + 1) pos >>=
          fun params => .ok (.null :: params)
      else
        match p.read i pos with
        | .panics => .panics
        | .error e => .error (lit "failed to decode param " ++ Strconv.itoa i ++ lit ": " ++ e)
        | .ok (value, pos) =>
          decodeParams p.data p.nullBitmap (some p.types) remaining (i + 1) pos >>=
            fun params => .ok (value :: params) := by
  rw [decodeParams]
  split
  · rename_i null
    rw [if_pos (by exact null)]
    cases decodeParams p.data p.nullBitmap (some p.types) remaining (i + 1) pos <;> rfl
  · rename_i present
    rw [if_neg (by exact present), read, fieldType]
    generalize decodeParamValue p.data pos _ _ = result
    cases result with
    | panics => rfl
    | error e => rfl
    | ok result =>
      dsimp only
      cases decodeParams p.data p.nullBitmap (some p.types) remaining (i + 1) result.2 <;> rfl

/-- The loop is at value `i`, and it fails as the first of the values left that fails. -/
theorem decodeParams_failure_iff (p : Sent) (short : Addressable p.data)
    (f : Decoded.Failure) (remaining i pos : Nat) (starts : p.valueStart i = some pos) :
    (decodeParams p.data p.nullBitmap (some p.types) remaining i pos).failure = some f ↔
      ∃ j, i ≤ j ∧ j < i + remaining ∧ p.FailsAt f j := by
  induction remaining generalizing i pos with
  | zero =>
    simp only [decodeParams, Decoded.failure, reduceCtorEq, false_iff]
    rintro ⟨j, low, high, -⟩
    omega
  | succ remaining ih =>
    have ends : (p.read i pos).next = _ :=
      decodeParamValue_next short (p.valueStart_le starts) (p.fieldType i) _
    have next : p.valueStart (i + 1) = if p.isNull i then some pos else (p.read i pos).next := by
      rw [valueStart, starts, ends]
    rw [exists_from_iff, decodeParams_succ]
    by_cases null : p.isNull i = true
    · have skips : ¬ p.FailsAt f i := by
        rintro ⟨_, _, present, _⟩
        simp [null] at present
      rw [if_pos null] at next
      rw [if_pos null, Decoded.failure_bind_ok, ih (i + 1) pos next]
      simp [skips]
    · have here : p.FailsAt f i ↔ (p.read i pos).failure = some f := by
        simp [FailsAt, starts, null]
      rw [if_neg null] at next
      rw [if_neg null, here]
      -- after a failure no value is reached
      have ended (stops : p.valueStart (i + 1) = none) :
          ¬ ∃ j, i + 1 ≤ j ∧ j < i + 1 + remaining ∧ p.FailsAt f j := by
        rintro ⟨j, later, -, pos', reached, -⟩
        rw [p.valueStart_none stops later] at reached
        cases reached
      cases value : p.read i pos with
      | panics | error =>
        rw [value] at next
        simp only [Decoded.failure, ended next, or_false]
      | ok result =>
        rw [value] at next
        dsimp only
        rw [Decoded.failure_bind_ok, ih (i + 1) result.2 next]
        simp [Decoded.failure]

end Sent

/-- Without types only NULL is decoded. -/
theorem decodeParams_untyped (data nullBitmap : List UInt8) (remaining i pos : Nat) :
    (decodeParams data nullBitmap none remaining i pos).failure =
      if (List.range' i remaining).any (!nullAt nullBitmap ·) then some .error else none := by
  induction remaining generalizing i pos with
  | zero => rfl
  | succ remaining ih =>
    rw [decodeParams, List.range'_succ, List.any_cons]
    split
    · rename_i null
      have here : nullAt nullBitmap i = true := null
      rw [here, Bool.not_true, Bool.false_or, ← ih (i + 1) pos]
      cases decodeParams data nullBitmap none remaining (i + 1) pos <;> rfl
    · rename_i present
      have here : nullAt nullBitmap i = false := Bool.not_eq_true _ ▸ present
      rw [here]
      rfl

def sent (data : List UInt8) (query : GoString) : Option Sent :=
  let numParams := Strings.count query 63
  let pos := 9 + (numParams + 7) / 8
  if inside : pos + 1 + numParams * 2 ≤ data.length then
    if numParams ≠ 0 ∧ data.getD pos 0 = 1 then
      some ⟨data, (data.drop 9).take ((numParams + 7) / 8),
        (data.drop (pos + 1)).take (numParams * 2), pos + 1 + numParams * 2, inside⟩
    else none
  else none

def someLengthWraps (data : List UInt8) (query : GoString) : Bool :=
  match sent data query with
  | none => false
  | some p => (List.range (Strings.count query 63)).any p.wraps

/-- The packet is too short for as many parameters as the text has question marks, a value
of them is cut off or of an unknown type, or there are no types for one that is not NULL. -/
def refused (data : List UInt8) (query : GoString) : Bool :=
  let numParams := Strings.count query 63
  let pos := 9 + (numParams + 7) / 8
  data.length < 10 || numParams != 0 && (data.length ≤ pos ||
    if data.getD pos 0 = 1 then
      match sent data query with
      | none => true
      | some p => (List.range numParams).any p.cutOff
    else (List.range numParams).any fun i => !nullAt ((data.drop 9).take ((numParams + 7) / 8)) i)

theorem decodeStmtParams_sent {data : List UInt8} {query : GoString} {p : Sent}
    (parts : sent data query = some p) :
    p.data = data ∧ decodeStmtParams data query =
      decodeParams p.data p.nullBitmap (some p.types) (Strings.count query 63) 0 p.start := by
  rw [sent] at parts
  rw [decodeStmtParams]
  generalize Strings.count query 63 = numParams at parts ⊢
  dsimp only at parts ⊢
  split at parts
  · rename_i inside
    split at parts
    · rename_i typed
      cases parts
      rw [if_neg (by omega), if_neg typed.1, if_neg (by omega), if_neg (by omega),
        if_pos typed.2, if_neg (by omega)]
      exact ⟨rfl, rfl⟩
    · cases parts
  · cases parts

/-- Where the types are not sent, or cut off, the decoding fails as `refused` says. -/
theorem decodeStmtParams_unsent {data : List UInt8} {query : GoString}
    (parts : sent data query = none) :
    (decodeStmtParams data query).failure =
      if refused data query = true then some .error else none := by
  rw [refused, parts]
  rw [sent] at parts
  rw [decodeStmtParams]
  generalize Strings.count query 63 = numParams at parts ⊢
  dsimp only at parts ⊢
  by_cases header : data.length < 10
  · simp [header, Decoded.failure]
  by_cases none : numParams = 0
  · simp [header, none, Decoded.failure]
  by_cases bitmap : data.length < 10 + (numParams + 7) / 8
  · have cut : data.length ≤ 9 + (numParams + 7) / 8 := by omega
    simp [header, none, bitmap, cut, Decoded.failure]
  have uncut : ¬ data.length ≤ 9 + (numParams + 7) / 8 := by omega
  by_cases typed : data.getD (9 + (numParams + 7) / 8) 0 = 1
  · have short : data.length < 9 + (numParams + 7) / 8 + 1 + numParams * 2 := by
      by_contra complete
      rw [dif_pos (by omega), if_pos ⟨none, typed⟩] at parts
      cases parts
    simp only [header, none, bitmap, uncut, typed, short, if_true, if_false]
    simp [none, Decoded.failure]
  · simp only [header, none, bitmap, uncut, typed, if_false, decodeParams_untyped,
      List.range_eq_range']
    simp [none]

theorem decodeStmtParams_panics_iff {data : List UInt8} (short : Addressable data)
    (query : GoString) :
    decodeStmtParams data query = .panics ↔ someLengthWraps data query = true := by
  rw [← Decoded.failure_panic_iff, someLengthWraps]
  cases parts : sent data query with
  | none =>
    rw [decodeStmtParams_unsent parts]
    split <;> simp
  | some p =>
    obtain ⟨rfl, eq⟩ := decodeStmtParams_sent parts
    rw [eq, p.decodeParams_failure_iff short .panic _ 0 p.start rfl]
    simp [List.any_eq_true, p.wraps_iff short]

theorem decodeStmtParams_error_iff {data : List UInt8} (short : Addressable data)
    (query : GoString) :
    (∃ e, decodeStmtParams data query = .error e) ↔ refused data query = true := by
  rw [← Decoded.failure_error_iff]
  cases parts : sent data query with
  | none =>
    rw [decodeStmtParams_unsent parts]
    split <;> simp_all
  | some p =>
    obtain ⟨rfl, eq⟩ := decodeStmtParams_sent parts
    have reads : refused p.data query = true ↔
        ∃ i, i < Strings.count query 63 ∧ p.cutOff i = true := by
      have whole := parts
      rw [refused, parts]
      rw [sent] at whole
      generalize Strings.count query 63 = numParams at whole ⊢
      dsimp only at whole ⊢
      split at whole
      · rename_i inside
        split at whole
        · rename_i typed
          have long : ¬ p.data.length < 10 := by omega
          have uncut : ¬ p.data.length ≤ 9 + (numParams + 7) / 8 := by omega
          rw [if_pos typed.2]
          simp [long, uncut, typed.1, List.any_eq_true]
        · cases whole
      · cases whole
    rw [reads, eq, p.decodeParams_failure_iff short .error _ 0 p.start rfl]
    simp [p.cutOff_iff short]

/-- The decoding returns exactly when no string of the packet has a length that
wraps; every operation it makes is then inside the packet. -/
theorem stmtParams_returns_iff (data : List UInt8) (query : GoString)
    (short : Addressable data) (shortQuery : Addressable query) :
    (Bounded.decodeStmtParams data query).returns ↔ someLengthWraps data query = false := by
  rw [Decoded.returns_iff, bounded_stmtParams short shortQuery, Ne,
    decodeStmtParams_panics_iff short, Bool.not_eq_true]

/-- One TINY parameter and a string of two bytes. -/
theorem stmtParams_returns_string :
    (Bounded.decodeStmtParams
      [1, 0, 0, 0, 0, 1, 0, 0, 0, 0, 1, 1, 0, 0xfd, 0, 255, 0xfe, 2, 0, 0, 0, 0, 0, 0, 0, 104, 105]
      (lit "UPDATE t SET a = ? WHERE b = ?")).returns :=
  (stmtParams_returns_iff
    [1, 0, 0, 0, 0, 1, 0, 0, 0, 0, 1, 1, 0, 0xfd, 0, 255, 0xfe, 2, 0, 0, 0, 0, 0, 0, 0, 104, 105]
    (lit "UPDATE t SET a = ? WHERE b = ?") (by decide) (by decide +kernel)).mpr (by decide +kernel)

/-- A length of eight bytes 0xff: the end of the string is before its start. -/
theorem stmtParams_panics_long_string :
    Bounded.decodeStmtParams
      [1, 0, 0, 0, 0, 1, 0, 0, 0, 0, 1, 0xfd, 0,
        0xfe, 0xff, 0xff, 0xff, 0xff, 0xff, 0xff, 0xff, 0xff]
      (lit "UPDATE t SET a = ?") = .panics := by
  decide +kernel

end TQDBProxy.MariaDB
