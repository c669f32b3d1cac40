import Mathlib.Algebra.Group.Nat.Defs
import TQDBProxy.CheckedSlices
import TQDBProxy.MySqlWire
import TQDBProxy.StatementParams

/-! The body of a COM_STMT_EXECUTE as a client writes it, and that `decodeStmtParams`
reads it back: the decoder is at the right offset after every parameter. -/

namespace TQDBProxy.MariaDB

open MySqlWire

inductive IntType where
  | tiny | short | long | longlong
  deriving DecidableEq

def IntType.width : IntType → Nat
  | .tiny => 1
  | .short => 2
  | .long => 4
  | .longlong => 8

def IntType.code : IntType → UInt8
  | .tiny => 0x01
  | .short => 0x02
  | .long => 0x03
  | .longlong => 0x08

inductive StringType where
  | string | varString
  deriving DecidableEq

def StringType.code : StringType → UInt8
  | .string => 0xfe
  | .varString => 0xfd

def knownTypes : List UInt8 := [0x01, 0x02, 0x03, 0x08, 0xfe, 0xfd]

/-- A parameter as it is sent. A string may have its length in any length-encoded form,
and parameters of other types have some bytes. -/
inductive Param where
  | null (code flags : UInt8)
  | signed (type : IntType) (value : BitVec (8 * type.width))
  | unsigned (type : IntType) (value : BitVec (8 * type.width))
  | string (type : StringType) (flags : UInt8) (length bytes : List UInt8)
    (lengthEncoded : lenenc length = some (bytes.length, []))
  | other (code flags : UInt8) (bytes : List UInt8) (unknown : code ∉ knownTypes)

namespace Param

def isNull : Param → Bool
  | .null .. => true
  | _ => false

def supported : Param → Bool
  | .other .. => false
  | _ => true

def code : Param → UInt8
  | .null code _ | .other code _ _ _ => code
  | .signed type _ | .unsigned type _ => type.code
  | .string type .. => type.code

def flags : Param → UInt8
  | .null _ flags | .string _ flags .. | .other _ flags _ _ => flags
  | .signed .. => 0
  | .unsigned .. => 0x80

def encode : Param → List UInt8
  | .null .. => []
  | .signed type value | .unsigned type value => littleEndianBytes type.width value.toNat
  | .string _ _ length bytes _ => length ++ bytes
  | .other _ _ bytes _ => bytes

def value : Param → Value
  | .null .. => .null
  | .signed _ value => .int value.toInt
  | .unsigned _ value => .uint value.toNat
  | .string _ _ _ bytes _ => .string bytes
  | .other _ _ bytes _ => .bytes bytes

end Param

def packBits (bits : List Bool) : Nat := bits.foldr (fun b n => b.toNat + 2 * n) 0

/-- Eight bits to a byte; the last byte is filled up with zeros. -/
def nullBitmap (nulls : List Bool) : List UInt8 :=
  (List.range ((nulls.length + 7) / 8)).map fun k =>
    UInt8.ofNat (packBits ((nulls.drop (8 * k)).take 8))

def paramTypes (params : List Param) : List UInt8 := params.flatMap fun p => [p.code, p.flags]

/-- Statement, flags and iteration count are the nine bytes in front. -/
structure ExecuteHead where
  bytes : List UInt8
  nine : bytes.length = 9

def ExecuteHead.front (head : ExecuteHead) (params : List Param) (typesSent : Bool) : List UInt8 :=
  head.bytes ++ nullBitmap (params.map Param.isNull) ++
    if typesSent then 1 :: paramTypes params else [0]

def executeBody (head : ExecuteHead) (params : List Param) (typesSent : Bool) : List UInt8 :=
  head.front params typesSent ++ params.flatMap Param.encode

/-! The bitmap and the types -/

theorem testBit_packBits (bits : List Bool) (j : Nat) :
    (packBits bits).testBit j = bits.getD j false := by
  induction bits generalizing j with
  | nil => simp [packBits]
  | cons b bits ih =>
    have unfolded : packBits (b :: bits) = b.toNat + 2 * packBits bits := rfl
    rw [unfolded]
    cases j with
    | zero => cases b <;> simp [Nat.testBit_zero]
    | succ j =>
      have half : (b.toNat + 2 * packBits bits) / 2 = packBits bits := by
        have bit := b.toNat_lt
        omega
      rw [Nat.testBit_succ, half, ih]
      rfl

theorem packBits_lt (bits : List Bool) : packBits bits < 2 ^ bits.length := by
  induction bits with
  | nil => simp [packBits]
  | cons b bits ih =>
    have unfolded : packBits (b :: bits) = b.toNat + 2 * packBits bits := rfl
    have bit := b.toNat_lt
    rw [unfolded, List.length_cons, Nat.pow_succ]
    omega

theorem length_nullBitmap (nulls : List Bool) :
    (nullBitmap nulls).length = (nulls.length + 7) / 8 := by
  rw [nullBitmap, List.length_map, List.length_range]

theorem testBit_nullBitmap (nulls : List Bool) {i : Nat} (inside : i < nulls.length) :
    ((nullBitmap nulls).getD (i / 8) 0).toNat.testBit (i % 8) = nulls.getD i false := by
  have place : i / 8 < (nulls.length + 7) / 8 := by omega
  have byte : (nullBitmap nulls).getD (i / 8) 0 =
      UInt8.ofNat (packBits ((nulls.drop (8 * (i / 8))).take 8)) := by
    rw [List.getD_eq_getElem?_getD, nullBitmap, List.getElem?_map, List.getElem?_range place]
    rfl
  have small : packBits ((nulls.drop (8 * (i / 8))).take 8) < 256 :=
    calc packBits ((nulls.drop (8 * (i / 8))).take 8)
        < 2 ^ ((nulls.drop (8 * (i / 8))).take 8).length := packBits_lt _
      _ ≤ 2 ^ 8 := Nat.pow_le_pow_right (by decide) (List.length_take_le ..)
  rw [byte, UInt8.toNat_ofNat', Nat.mod_eq_of_lt small, testBit_packBits,
    List.getD_eq_getElem?_getD, List.getD_eq_getElem?_getD, List.getElem?_take_of_lt (by omega),
    List.getElem?_drop, Nat.div_add_mod]

theorem length_paramTypes (params : List Param) :
    (paramTypes params).length = params.length * 2 := by
  induction params with
  | nil => rfl
  | cons p params ih =>
    rw [paramTypes, List.flatMap_cons, List.length_append, List.length_cons]
    rw [paramTypes] at ih
    rw [ih]
    simp only [List.length_cons, List.length_nil]
    omega

theorem paramTypes_append (before after : List Param) :
    paramTypes (before ++ after) = paramTypes before ++ paramTypes after := List.flatMap_append

theorem paramTypes_code (before : List Param) (p : Param) (after : List Param) :
    (paramTypes (before ++ p :: after)).getD (2 * before.length) 0 = p.code := by
  rw [paramTypes_append, List.getD_eq_getElem?_getD,
    List.getElem?_append_right (by rw [length_paramTypes]; omega), length_paramTypes, Nat.mul_comm,
    Nat.sub_self]
  rfl

theorem paramTypes_flags (before : List Param) (p : Param) (after : List Param) :
    (paramTypes (before ++ p :: after)).getD (2 * before.length + 1) 0 = p.flags := by
  rw [paramTypes_append, List.getD_eq_getElem?_getD,
    List.getElem?_append_right (by rw [length_paramTypes]; omega), length_paramTypes, Nat.mul_comm,
    Nat.add_sub_cancel_left]
  rfl

/-! One value -/

theorem decodeLengthEncodedInt_lenenc {length : List UInt8} {n : Nat}
    (encoded : lenenc length = some (n, [])) (rest : List UInt8) :
    decodeLengthEncodedInt (length ++ rest) = (n, length.length) ∧ length ≠ [] := by
  cases length with
  | nil => cases encoded
  | cons b more =>
    refine ⟨?_, by simp⟩
    have wide (size : Nat) (enough : size ≤ more.length) (none : more.drop size = []) :
        more.length = size ∧ more.take size = more ∧ (more ++ rest).take size = more ∧
          ¬ (more ++ rest).length < size := by
      have exact : more.length = size := by
        have dropped := congrArg List.length none
        rw [List.length_drop] at dropped
        simp only [List.length_nil] at dropped
        omega
      refine ⟨exact, ?_, ?_, ?_⟩
      · rw [← exact, List.take_length]
      · rw [← exact, List.take_left]
      · rw [List.length_append]
        omega
    rw [lenenc] at encoded
    rw [List.cons_append, decodeLengthEncodedInt, List.length_cons]
    split_ifs at encoded with one two three eight
    · simp only [Option.some.injEq, Prod.mk.injEq] at encoded
      obtain ⟨rfl, rfl⟩ := encoded
      have small : b.toNat < 251 := one
      have ne (c : UInt8) (large : 251 ≤ c.toNat) : b ≠ c := by
        rintro rfl
        omega
      rw [if_neg (ne _ (by decide)), if_neg (ne _ (by decide)), if_neg (ne _ (by decide)),
        if_neg (ne _ (by decide))]
      rfl
    · obtain ⟨rfl, enough⟩ := two
      simp only [Option.some.injEq, Prod.mk.injEq] at encoded
      obtain ⟨size, whole, front, short⟩ := wide 2 enough encoded.2
      rw [if_neg (by decide), if_pos rfl, if_neg short, front, size, ← encoded.1, whole]
    · obtain ⟨rfl, enough⟩ := three
      simp only [Option.some.injEq, Prod.mk.injEq] at encoded
      obtain ⟨size, whole, front, short⟩ := wide 3 enough encoded.2
      rw [if_neg (by decide), if_neg (by decide), if_pos rfl, if_neg short, front, size,
        ← encoded.1, whole]
    · obtain ⟨rfl, enough⟩ := eight
      simp only [Option.some.injEq, Prod.mk.injEq] at encoded
      obtain ⟨size, whole, front, short⟩ := wide 8 enough encoded.2
      rw [if_neg (by decide), if_neg (by decide), if_neg (by decide), if_pos rfl, if_neg short,
        front, size, ← encoded.1, whole]

/-- `data` has `bytes` at an offset. -/
def At (data : List UInt8) (pos : Nat) (bytes : List UInt8) : Prop :=
  ∃ before after, data = before ++ bytes ++ after ∧ before.length = pos

namespace At

variable {data bytes : List UInt8} {pos : Nat}

theorem length_le (here : At data pos bytes) : pos + bytes.length ≤ data.length := by
  obtain ⟨before, after, rfl, rfl⟩ := here
  simp only [List.length_append]
  omega

theorem take (here : At data pos bytes) : (data.drop pos).take bytes.length = bytes := by
  obtain ⟨before, after, rfl, rfl⟩ := here
  rw [List.append_assoc, List.drop_left, List.take_left]

theorem left {front back : List UInt8} (here : At data pos (front ++ back)) :
    At data pos front := by
  obtain ⟨before, after, rfl, rfl⟩ := here
  exact ⟨before, back ++ after, by simp, rfl⟩

theorem right (front : List UInt8) {back : List UInt8} (here : At data pos (front ++ back)) :
    At data (pos + front.length) back := by
  obtain ⟨before, after, rfl, rfl⟩ := here
  exact ⟨before ++ front, after, by simp, by simp⟩

end At

variable {data : List UInt8} {pos : Nat}

theorem decodeFixed_at {type : IntType} {value : BitVec (8 * type.width)}
    (here : At data pos (littleEndianBytes type.width value.toNat)) (unsigned : Bool)
    (name : String) :
    decodeFixed data pos type.width unsigned name =
      .ok (if unsigned then .uint value.toNat else .int value.toInt, pos + type.width) := by
  have size := length_littleEndianBytes type.width value.toNat
  have bound : value.toNat < 256 ^ type.width := by
    have small := value.isLt
    rwa [Nat.pow_mul] at small
  have enough := here.length_le
  have read := here.take
  rw [size] at enough read
  rw [decodeFixed, if_neg (by omega), read, littleEndian_bytes bound, BitVec.toInt_eq_toNat_bmod,
    Nat.one_shiftLeft]

theorem decodeString_at {length bytes : List UInt8}
    (encoded : lenenc length = some (bytes.length, [])) (here : At data pos (length ++ bytes))
    (fits : data.length < 2 ^ 63) :
    decodeString data pos = .ok (.string bytes, pos + (length ++ bytes).length) := by
  have enough := here.length_le
  have string := (At.right length here).take
  obtain ⟨before, after, eq, rfl⟩ := here
  have rest : data.drop before.length = length ++ (bytes ++ after) := by
    rw [eq, List.append_assoc, List.drop_left, List.append_assoc]
  obtain ⟨read, some⟩ := decodeLengthEncodedInt_lenenc encoded (bytes ++ after)
  have lead : length.length ≠ 0 := fun none => some (List.eq_nil_of_length_eq_zero none)
  rw [List.length_append] at enough
  have stop : Int.bmod ((before.length + length.length + bytes.length : Nat) : Int) (1 <<< 64) =
      (before.length + length.length + bytes.length : Nat) := by
    refine Slices.int64_of_lt (n := before.length + length.length + bytes.length) ?_
    omega
  rw [decodeString, if_neg (by omega), rest, read]
  dsimp only
  rw [if_neg lead, stop, if_neg (by omega), if_neg (by omega), Int.toNat_natCast,
    Nat.add_sub_cancel_left, string, List.length_append, Nat.add_assoc]

theorem decodeParamValue_int (data : List UInt8) (pos : Nat) (type : IntType) (unsigned : Bool) :
    ∃ name, decodeParamValue data pos type.code unsigned =
      decodeFixed data pos type.width unsigned name := by
  cases type
  · exact ⟨"TINY", rfl⟩
  · exact ⟨"SHORT", rfl⟩
  · exact ⟨"LONG", rfl⟩
  · exact ⟨"LONGLONG", rfl⟩

theorem decodeParamValue_string (type : StringType) (unsigned : Bool) :
    decodeParamValue data pos type.code unsigned = decodeString data pos := by
  have other (c : UInt8) (integer : c.toNat < 0xfd) : type.code ≠ c := by
    rintro rfl
    cases type <;> exact absurd integer (by decide)
  have string : type.code = 0xfe ∨ type.code = 0xfd := by cases type <;> decide
  rw [decodeParamValue, if_neg (other _ (by decide)), if_neg (other _ (by decide)),
    if_neg (other _ (by decide)), if_neg (other _ (by decide)), if_pos string]

theorem decodeParamValue_at {p : Param} (here : At data pos p.encode) (fits : data.length < 2 ^ 63)
    (value : p.isNull = false) (known : p.supported = true) :
    decodeParamValue data pos p.code (p.flags == 0x80) = .ok (p.value, pos + p.encode.length) := by
  cases p with
  | null => cases value
  | other => cases known
  | signed type v =>
    obtain ⟨name, fixed⟩ := decodeParamValue_int data pos type false
    have size : (Param.signed type v).encode.length = type.width := length_littleEndianBytes ..
    rw [size]
    exact fixed.trans (decodeFixed_at here false name)
  | unsigned type v =>
    obtain ⟨name, fixed⟩ := decodeParamValue_int data pos type true
    have size : (Param.unsigned type v).encode.length = type.width := length_littleEndianBytes ..
    rw [size]
    exact fixed.trans (decodeFixed_at here true name)
  | string type flags length bytes encoded =>
    exact (decodeParamValue_string type _).trans (decodeString_at encoded here fits)

theorem decodeParamValue_unknown (data : List UInt8) (pos : Nat) {p : Param}
    (unknown : p.supported = false) (unsigned : Bool) :
    ∃ e, decodeParamValue data pos p.code unsigned = .error e := by
  cases p with
  | other code flags bytes other =>
    simp only [knownTypes, List.mem_cons, List.not_mem_nil, or_false, not_or] at other
    obtain ⟨tiny, short, long, longlong, string, varString⟩ := other
    rw [Param.code, decodeParamValue, if_neg tiny, if_neg short, if_neg long, if_neg longlong,
      if_neg (not_or.mpr ⟨string, varString⟩)]
    exact ⟨_, rfl⟩
  | _ => cases unknown

/-! All values -/

theorem null_bit (before : List Param) (p : Param) (after : List Param) :
    ((nullBitmap ((before ++ p :: after).map Param.isNull)).getD (before.length / 8)
      0).toNat.testBit
      (before.length % 8) = p.isNull := by
  rw [testBit_nullBitmap _ (by simp), List.getD_eq_getElem?_getD]
  simp

theorem decoded_cons (value : Value) {result : Decoded (List Value)} {values : List Value}
    {known : Bool} :
    let longer : Decoded (List Value) := match result with
      | .ok params => .ok (value :: params)
      | failure => failure
    (if known then result = .ok values else ∃ e, result = .error e) →
      if known then longer = .ok (value :: values) else ∃ e, longer = .error e := by
  intro longer next
  split_ifs at next ⊢
  · subst next
    rfl
  · obtain ⟨e, rfl⟩ := next
    exact ⟨e, rfl⟩

theorem decodeParams_sent (before : List Param) {after : List Param}
    (here : At data pos (after.flatMap Param.encode)) (fits : data.length < 2 ^ 63) :
    let result := decodeParams data (nullBitmap ((before ++ after).map Param.isNull))
      (some (paramTypes (before ++ after))) after.length before.length pos
    if after.all Param.supported then result = .ok (after.map Param.value)
    else ∃ e, result = .error e := by
  induction after generalizing before pos with
  | nil => simp [decodeParams]
  | cons p after ih =>
    have bit := null_bit before p after
    rw [List.flatMap_cons] at here
    -- the same lists with the cut after `p`
    have next := ih (before ++ [p]) (At.right p.encode here)
    rw [List.length_append, List.length_singleton, ← List.append_cons] at next
    dsimp only at next ⊢
    rw [List.length_cons, decodeParams, bit]
    cases p with
    | null code flags =>
      simp only [Param.isNull, if_true, List.all_cons, Param.supported, Bool.true_and, Param.encode,
        List.length_nil, Nat.add_zero] at next ⊢
      exact decoded_cons .null next
    | other code flags bytes unknown =>
      obtain ⟨e, failed⟩ := decodeParamValue_unknown data pos
        (p := .other code flags bytes unknown) rfl (flags == 0x80)
      have type := paramTypes_code before (.other code flags bytes unknown) after
      have flag := paramTypes_flags before (.other code flags bytes unknown) after
      simp only [Param.isNull, Bool.false_eq_true, if_false, List.all_cons, Param.supported,
        Bool.false_and]
      rw [type, flag, Param.flags, failed]
      exact ⟨_, rfl⟩
    | signed | unsigned | string =>
      have read := decodeParamValue_at here.left fits rfl rfl
      simp only [Param.isNull, Bool.false_eq_true, if_false, List.all_cons, Param.supported,
        Bool.true_and]
      rw [paramTypes_code, paramTypes_flags, read]
      exact decoded_cons _ next

theorem decodeParams_nulls (before after : List Param) :
    let result := decodeParams data (nullBitmap ((before ++ after).map Param.isNull)) none
      after.length before.length pos
    if after.all Param.isNull then result = .ok (after.map Param.value) else ∃ e,
      result = .error e := by
  induction after generalizing before with
  | nil => simp [decodeParams]
  | cons p after ih =>
    have bit := null_bit before p after
    have next := ih (before ++ [p])
    rw [List.length_append, List.length_singleton, ← List.append_cons] at next
    dsimp only at next ⊢
    rw [List.length_cons, decodeParams, bit]
    cases p with
    | null code flags =>
      simp only [Param.isNull, if_true, List.all_cons, Bool.true_and] at next ⊢
      exact decoded_cons .null next
    | _ =>
      simp only [Param.isNull, Bool.false_eq_true, if_false, List.all_cons, Bool.false_and]
      exact ⟨_, rfl⟩

variable (head : ExecuteHead) (params : List Param)

theorem length_isNull : (params.map Param.isNull).length = params.length := List.length_map ..

theorem bitmap_at (typesSent : Bool) :
    At (executeBody head params typesSent) 9 (nullBitmap (params.map Param.isNull)) := by
  have whole : At (executeBody head params typesSent) 0
      (head.bytes ++ (nullBitmap (params.map Param.isNull) ++
        ((if typesSent then 1 :: paramTypes params else [0]) ++ params.flatMap Param.encode))) :=
    ⟨[], [], by simp [executeBody, ExecuteHead.front], rfl⟩
  have rest := (At.right head.bytes whole).left
  rwa [head.nine] at rest

theorem values_at (typesSent : Bool) :
    At (executeBody head params typesSent) (9 + (params.length + 7) / 8)
      ((if typesSent then 1 :: paramTypes params else [0]) ++ params.flatMap Param.encode) := by
  have whole : At (executeBody head params typesSent) 0
      ((head.bytes ++ nullBitmap (params.map Param.isNull)) ++
        ((if typesSent then 1 :: paramTypes params else [0]) ++ params.flatMap Param.encode)) :=
    ⟨[], [], by simp [executeBody, ExecuteHead.front], rfl⟩
  have rest := At.right (head.bytes ++ nullBitmap (params.map Param.isNull)) whole
  rwa [List.length_append, head.nine, length_nullBitmap, length_isNull, Nat.zero_add] at rest

theorem At.getD {b : UInt8} {bytes : List UInt8} (here : At data pos (b :: bytes)) :
    data.getD pos 0 = b := by
  obtain ⟨before, after, rfl, rfl⟩ := here
  simp

theorem decodeStmtParams_body (typesSent : Bool) {query : GoString}
    (marks : Strings.count query 63 = params.length) :
    decodeStmtParams (executeBody head params typesSent) query =
      decodeParams (executeBody head params typesSent) (nullBitmap (params.map Param.isNull))
        (if typesSent then some (paramTypes params) else none) params.length 0
        (9 + (params.length + 7) / 8 + (1 + if typesSent then params.length * 2 else 0)) := by
  have bitmap := (bitmap_at head params typesSent).take
  rw [length_nullBitmap, length_isNull] at bitmap
  have values := values_at head params typesSent
  have size := values.length_le
  rw [List.length_append] at size
  have flag : (executeBody head params typesSent).getD (9 + (params.length + 7) / 8) 0 =
      if typesSent then 1 else 0 := by
    cases typesSent
    · exact values.getD
    · exact values.getD
  have long : 10 + (params.length + 7) / 8 ≤ (executeBody head params typesSent).length := by
    have one : 1 ≤ (if typesSent then 1 :: paramTypes params else [0]).length := by
      cases typesSent <;> simp
    omega
  rw [decodeStmtParams, if_neg (by omega), marks]
  by_cases none : params.length = 0
  · simp only [none, if_true, decodeParams]
  · simp only [none, if_false, bitmap, flag]
    rw [if_neg (by omega), if_neg (by omega)]
    cases typesSent with
    | false => rfl
    | true =>
      have types := At.right [1] values
      have typed := types.left.take
      rw [length_paramTypes] at typed
      have enough : 9 + (params.length + 7) / 8 + 1 + params.length * 2 ≤
          (executeBody head params true).length := by
        have all := types.left.length_le
        rwa [length_paramTypes] at all
      simp only [if_true]
      rw [if_neg (by omega), ← Nat.add_assoc, ← typed]
      rfl

theorem decodeStmtParams_executeBody (typesSent : Bool) {query : GoString}
    (marks : Strings.count query 63 = params.length)
    (fits : (executeBody head params typesSent).length < 2 ^ 63) :
    if params.all (if typesSent then Param.supported else Param.isNull) then
      decodeStmtParams (executeBody head params typesSent) query = .ok (params.map Param.value)
    else ∃ e, decodeStmtParams (executeBody head params typesSent) query = .error e := by
  rw [decodeStmtParams_body head params typesSent marks]
  cases typesSent with
  | false => exact decodeParams_nulls [] params
  | true =>
    have values := At.right (1 :: paramTypes params) (values_at head params true)
    rw [List.length_cons, length_paramTypes, Nat.add_comm (params.length * 2)] at values
    exact decodeParams_sent [] values fits

/-- The length of a slice is an `int`. -/
theorem params_decoded (head : ExecuteHead) (params : List Param) (query : GoString)
    (supported : ∀ p ∈ params, p.supported = true)
    (marks : Strings.count query 63 = params.length)
    (fits : (executeBody head params true).length < 2 ^ 63) :
    decodeStmtParams (executeBody head params true) query = .ok (params.map Param.value) := by
  have result := decodeStmtParams_executeBody head params true marks fits
  rwa [if_pos rfl, if_pos (List.all_eq_true.mpr supported)] at result

/-- A string of two bytes with its length in two bytes, after NULL and two integers. -/
theorem params_decoded_mixed :
    decodeStmtParams
        (executeBody ⟨[1, 0, 0, 0, 0, 1, 0, 0, 0], rfl⟩
          [.null 6 0, .signed .tiny (BitVec.ofInt _ (-1)), .unsigned .short (BitVec.ofNat _ 65535),
            .string .varString 0 [252, 2, 0] (lit "hi") (by decide)] true)
        (lit "INSERT INTO t VALUES (?, ?, ?, ?)") =
      .ok [.null, .int (-1), .uint 65535, .string (lit "hi")] :=
  params_decoded _ _ _ (by simp [Param.supported]) (by decide) (by decide)

end TQDBProxy.MariaDB
