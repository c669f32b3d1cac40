import Mathlib.Algebra.GroupWithZero.Nat
import TQDBProxy.ClientHints
import TQDBProxy.PostgresDescribe
import TQDBProxy.PostgresWire

/-! Rows as a client reads them. The fields of a row are printed by `%v`, which gives the
text of a string but the numbers of the bytes of a slice; the value that a batched write
returns is sent as text to a simple query and as four bytes to an extended one. -/

namespace TQDBProxy.Postgres

open TQDBProxy.Parser

/-! ### Rows of a result -/

/-- What the driver stores for a column: nil, or a text as a string or as bytes. -/
inductive Scanned where
  | null
  | string (text : GoString)
  | bytes (text : GoString)
  deriving DecidableEq

def Scanned.value : Scanned → Value
  | .null => .null
  | .string text => .string text
  | .bytes text => .bytes text

def Scanned.text : Scanned → Option GoString
  | .null => none
  | .string text => some text
  | .bytes text => some text

def Scanned.isBytes : Scanned → Bool
  | .bytes _ => true
  | _ => false

def printField (printFloat : UInt64 → GoString) : Value → Option GoString
  | .null => none
  | v => some (printValue printFloat v)

def buildDataRow (printFloat : UInt64 → GoString) (values : List Value) : Reply :=
  .dataRow (values.map fun v => ⟨.text, printField printFloat v⟩)

def int32 (bytes : List UInt8) : Int := Int.bmod (Binary.bigEndian bytes) 4294967296

def readFields : Nat → List UInt8 → Option (List (Option GoString))
  | 0, rest => if rest = [] then some [] else none
  | count + 1, rest =>
    if rest.length < 4 then none
    else
      let length := int32 (rest.take 4)
      let rest := rest.drop 4
      if length = -1 then (readFields count rest).map (none :: ·)
      else if length < 0 ∨ rest.length < length then none
      else (readFields count (rest.drop length.toNat)).map (some (rest.take length.toNat) :: ·)

def decodeDataRow : List UInt8 → Option (List (Option GoString))
  | [] => none
  | msgType :: body =>
    if msgType = 68 ∧ 6 ≤ body.length ∧ int32 (body.take 4) = body.length then
      readFields (Binary.bigEndian ((body.drop 4).take 2)) (body.drop 6)
    else none

theorem bmod_mod (n m : Nat) : Int.bmod (n % m : Nat) m = Int.bmod n m := by
  rw [Int.natCast_emod, Int.emod_bmod]

theorem int32_putUint32 (n : Nat) : int32 (putUint32 n) = Int.bmod n 4294967296 := by
  unfold int32
  rw [bigEndian_putUint32]
  exact bmod_mod n 4294967296

theorem int32_putUint32_iff {n : Nat} : int32 (putUint32 n) = n ↔ n < 2147483648 := by
  rw [int32_putUint32]
  constructor
  · intro same
    have range := Int.bmod_lt (x := n) (m := 4294967296) (by decide)
    rw [same] at range
    omega
  · intro small
    exact Int.bmod_eq_of_le (by omega) (by omega)

theorem readFields_encode (fields : List Field)
    (short : (fields.flatMap Field.encode).length < 2147483648) :
    readFields fields.length (fields.flatMap Field.encode) = some (fields.map Field.value) := by
  induction fields with
  | nil => rfl
  | cons f fields ih =>
    rw [List.flatMap_cons, List.length_append] at short
    have later := ih (by omega)
    rw [List.flatMap_cons, List.length_cons, readFields]
    cases content : f.value with
    | none =>
      have encoded : f.encode = [255, 255, 255, 255] := by rw [Field.encode, content]
      have null : int32 [255, 255, 255, 255] = -1 := by decide
      rw [encoded, if_neg (by simp)]
      simp only [List.cons_append, List.nil_append, List.take_succ_cons, List.take_zero, null,
        if_true,
        List.drop_succ_cons, List.drop_zero, later, Option.map_some, List.map_cons, content]
    | some value =>
      have encoded : f.encode = putUint32 value.length ++ value := by rw [Field.encode, content]
      have front : (putUint32 value.length ++ value ++ fields.flatMap Field.encode).take 4 =
          putUint32 value.length := rfl
      have back : (putUint32 value.length ++ value ++ fields.flatMap Field.encode).drop 4 =
          value ++ fields.flatMap Field.encode := rfl
      have long : ¬ (putUint32 value.length ++ value ++ fields.flatMap Field.encode).length <
          4 := by
        rw [List.length_append, List.length_append, length_putUint32]
        omega
      rw [encoded, List.length_append, length_putUint32] at short
      have length := (int32_putUint32_iff (n := value.length)).mpr (by omega)
      have whole : ¬ ((value.length : Int) < 0 ∨
          (value ++ fields.flatMap Field.encode).length < (value.length : Int)) := by
        rw [List.length_append]
        omega
      rw [encoded, if_neg long, front, back, length]
      dsimp only
      rw [if_neg (by omega), if_neg whole, Int.toNat_natCast, List.drop_left, List.take_left, later,
        Option.map_some,
        List.map_cons, content]

theorem decodeDataRow_encode {fields : List Field} (few : fields.length < 65536) :
    decodeDataRow (Reply.dataRow fields).encode =
      if (Reply.dataRow fields).encode.length ≤ 2147483648 then some (fields.map Field.value) else
        none := by
  let payload := putUint16 fields.length ++ fields.flatMap Field.encode
  have encoded :
    (Reply.dataRow fields).encode = 68 :: (putUint32 (payload.length + 4) ++ payload) := rfl
  have length : (putUint32 (payload.length + 4) ++ payload).length = payload.length + 4 := by
    rw [List.length_append, length_putUint32, Nat.add_comm]
  have size : payload.length = 2 + (fields.flatMap Field.encode).length := List.length_append
  have front :
    (putUint32 (payload.length + 4) ++ payload).take 4 = putUint32 (payload.length + 4) := rfl
  have count :
    ((putUint32 (payload.length + 4) ++ payload).drop 4).take 2 = putUint16 fields.length := rfl
  have back : (putUint32 (payload.length + 4) ++ payload).drop 6 = fields.flatMap Field.encode :=
    rfl
  have number : Binary.bigEndian (putUint16 fields.length) = fields.length := by
    rw [bigEndian_putUint16, Nat.mod_eq_of_lt few]
  have sizes := int32_putUint32_iff (n := payload.length + 4)
  rw [encoded, decodeDataRow, front, count, back, length, List.length_cons, length, number]
  by_cases short : payload.length + 4 < 2147483648
  · rw [if_pos ⟨rfl, by omega, sizes.mpr short⟩, if_pos (by omega)]
    exact readFields_encode fields (by omega)
  · rw [if_neg fun read => short (sizes.mp read.2.2), if_neg (by omega)]

theorem length_le_intercalate (b : GoString) :
    b.length ≤ ([32].intercalate (b.map fun c => Strconv.itoa c.toNat)).length := by
  induction b with
  | nil => exact Nat.le_refl 0
  | cons c rest ih =>
    have printed := List.length_pos_of_ne_nil (Strconv.itoa_ne_nil c.toNat)
    cases rest with
    | nil =>
      simp only [List.map_cons, List.map_nil, List.intercalate_singleton, List.length_cons,
        List.length_nil]
      omega
    | cons d rest =>
      simp only [List.map_cons, List.intercalate_cons_cons, List.length_append, List.length_cons,
        List.length_nil] at ih ⊢
      omega

theorem printValue_bytes_ne (printFloat : UInt64 → GoString) (text : GoString) :
    printValue printFloat (.bytes text) ≠ text := by
  intro same
  have lengths := congrArg List.length same
  rw [printValue, List.length_append, List.length_append] at lengths
  have inner := length_le_intercalate text
  simp only [List.length_singleton] at lengths
  omega

theorem printField_eq_text_iff (printFloat : UInt64 → GoString) (v : Scanned) :
    printField printFloat v.value = v.text ↔ v.isBytes = false := by
  cases v with
  | null => exact ⟨fun _ => rfl, fun _ => rfl⟩
  | string text => exact ⟨fun _ => rfl, fun _ => rfl⟩
  | bytes text =>
    refine ⟨fun same => ?_, fun plain => by cases plain⟩
    exact absurd (Option.some.inj same) (printValue_bytes_ne printFloat text)

def textsLength (row : List Scanned) : Nat := (row.map fun v => (v.text.getD []).length).sum

theorem length_buildDataRow (printFloat : UInt64 → GoString) {row : List Scanned}
    (plain : ∀ v ∈ row, v.isBytes = false) :
    (buildDataRow printFloat (row.map Scanned.value)).encode.length =
      7 + 4 * row.length + textsLength row := by
  have field : ∀ v ∈ row, (Field.encode ⟨.text, printField printFloat v.value⟩).length =
      4 + (v.text.getD []).length := by
    intro v mem
    rw [(printField_eq_text_iff printFloat v).mpr (plain v mem), Field.encode]
    cases v.text with
    | none => rfl
    | some text => rw [List.length_append, length_putUint32, Option.getD_some]
  have fields : ((row.map Scanned.value).map fun v =>
      (⟨.text, printField printFloat v⟩ : Field)).flatMap Field.encode =
      row.flatMap fun v => Field.encode ⟨.text, printField printFloat v.value⟩ := by
    rw [List.map_map, List.flatMap_map]
    rfl
  have total : (row.flatMap fun v => Field.encode ⟨.text, printField printFloat v.value⟩).length =
      4 * row.length + textsLength row := by
    rw [List.length_flatMap, List.map_congr_left field, textsLength]
    clear fields field plain
    induction row with
    | nil => rfl
    | cons v row ih =>
      rw [List.map_cons, List.sum_cons, ih, List.map_cons, List.sum_cons, List.length_cons]
      omega
  have two : ∀ n, (putUint16 n).length = 2 := fun _ => rfl
  rw [buildDataRow, Reply.encode, fields, encodeMessage, List.length_append, List.length_append,
    List.length_cons, length_putUint32, total, two]
  omega

/-- A row is read as the texts that the database sent if none of them was delivered as
bytes and the length of the message is a positive number of 32 bits. -/
theorem data_row_texts_iff (printFloat : UInt64 → GoString) (row : List Scanned)
    (few : row.length < 65536) :
    decodeDataRow (buildDataRow printFloat (row.map Scanned.value)).encode =
        some (row.map Scanned.text) ↔
      (∀ v ∈ row, v.isBytes = false) ∧ 7 + 4 * row.length + textsLength row ≤ 2147483648 := by
  have fields : ((row.map Scanned.value).map fun v =>
      (⟨.text, printField printFloat v⟩ : Field)).length < 65536 := by
    rwa [List.length_map, List.length_map]
  have values : ((row.map Scanned.value).map fun v =>
      (⟨.text, printField printFloat v⟩ : Field)).map Field.value =
      row.map fun v => printField printFloat v.value := by
    rw [List.map_map, List.map_map]
    rfl
  have texts : (row.map fun v => printField printFloat v.value) = row.map Scanned.text ↔
      ∀ v ∈ row, v.isBytes = false := by
    simp only [List.map_inj_left, printField_eq_text_iff]
  have read : decodeDataRow (buildDataRow printFloat (row.map Scanned.value)).encode =
      if (buildDataRow printFloat (row.map Scanned.value)).encode.length ≤ 2147483648 then
        some (row.map fun v => printField printFloat v.value) else none := by
    rw [← values]
    exact decodeDataRow_encode fields
  rw [read]
  constructor
  · intro told
    split_ifs at told with short
    have plain := texts.mp (Option.some.inj told)
    exact ⟨plain, length_buildDataRow printFloat plain ▸ short⟩
  · rintro ⟨plain, short⟩
    rw [← length_buildDataRow printFloat plain] at short
    rw [if_pos short, texts.mpr plain]

/-- A NULL, a name and a number as text. -/
theorem data_row_texts_plain :
    decodeDataRow
      (buildDataRow (fun _ => [])
        ([Scanned.null, .string (lit "ann"), .string (lit "7")].map Scanned.value)).encode =
      some [none, some (lit "ann"), some (lit "7")] :=
  (data_row_texts_iff (fun _ => []) [.null, .string (lit "ann"), .string (lit "7")] (by decide)).mpr
    ⟨by simp [Scanned.isBytes], by decide +kernel⟩

/-- A number that the driver delivers as the bytes of 42 arrives as their codes. -/
theorem data_row_texts_bytes :
    decodeDataRow
      (buildDataRow (fun _ => []) ([Scanned.bytes (lit "42")].map Scanned.value)).encode =
      some [some (lit "[52 50]")] ∧
    [Scanned.bytes (lit "42")].map Scanned.text = [some (lit "42")] := by
  decide +kernel

/-! ### The value of a batched write -/

def readDigits (s : GoString) : Option Nat :=
  if s ≠ [] ∧ s.all Parser.digit = true then some (Strconv.digitsValue s) else none

def readInteger : GoString → Option Int
  | [] => none
  | b :: rest =>
    if b = 45 then (readDigits rest).map fun n : Nat => -(n : Int)
    else if b = 43 then (readDigits rest).map fun n : Nat => (n : Int)
    else (readDigits (b :: rest)).map fun n : Nat => (n : Int)

def Column.readInt (c : Column) (value : GoString) : Option Int :=
  match c.format with
  | .text => readInteger value
  | .binary =>
    if value.length = c.typeSize then some (Int.bmod (Binary.bigEndian value) (256 ^ value.length))
      else none

def Reply.firstColumn : Reply → Option Column
  | .rowDescription columns => columns.head?
  | _ => none

def announced (replies : List Reply) : Option Column := replies.findSome? Reply.firstColumn

def Reply.fields (r : Reply) : Option (List (Option GoString)) := decodeDataRow r.encode

def sentField (replies : List Reply) : Option GoString :=
  (replies.findSome? Reply.fields).bind fun row => row.head?.join

/-- The integer that a client reads from the replies to an execution by a description. -/
def clientInteger (column : Option Column) (replies : List Reply) : Option Int :=
  column.bind fun c => (sentField replies).bind c.readInt

section Numbers

open Strconv

theorem length_itoaAux_le (k fuel n : Nat) (acc : GoString) (small : n < 10 ^ (k + 1)) :
    (itoaAux fuel n acc).length ≤ acc.length + (k + 1) := by
  induction k generalizing fuel n acc with
  | zero =>
    cases fuel with
    | zero => exact Nat.le_add_right ..
    | succ fuel =>
      rw [itoaAux, if_pos (by omega)]
      exact Nat.le_refl _
  | succ k ih =>
    cases fuel with
    | zero => exact Nat.le_add_right ..
    | succ fuel =>
      have shorter : n / 10 < 10 ^ (k + 1) := by
        rw [Nat.div_lt_iff_lt_mul (by decide), ← Nat.pow_succ]
        exact small
      have rest := ih fuel (n / 10) (UInt8.ofNat (48 + n % 10) :: acc) shorter
      rw [List.length_cons] at rest
      rw [itoaAux]
      split_ifs
      · rw [List.length_cons]
        omega
      · omega

theorem length_itoa_le {k n : Nat} (small : n < 10 ^ (k + 1)) : (itoa n).length ≤ k + 1 := by
  have bound := length_itoaAux_le k (n + 1) n [] small
  rwa [List.length_nil, Nat.zero_add] at bound

theorem digitsValue_lt {s : GoString} (digits : s.all Parser.digit = true) :
    digitsValue s < 10 ^ s.length := by
  induction s using List.reverseRecOn with
  | nil => decide
  | append_singleton s b ih =>
    rw [List.all_append, Bool.and_eq_true] at digits
    have front := ih digits.1
    have last : b.toNat - 48 < 10 := by
      have range := digits.2
      simp only [List.all_cons, List.all_nil, Bool.and_true, Parser.digit, Bool.and_eq_true,
        decide_eq_true_eq,
        UInt8.le_iff_toNat_le] at range
      have upper : (57 : UInt8).toNat = 57 := rfl
      omega
    have value : digitsValue (s ++ [b]) = digitsValue s * 10 + (b.toNat - 48) := by
      rw [digitsValue, List.foldl_append]
      rfl
    rw [value, List.length_append, List.length_singleton, Nat.pow_succ]
    omega

theorem readDigits_lt {s : GoString} {n : Nat} (read : readDigits s = some n) :
    n < 10 ^ s.length := by
  unfold readDigits at read
  split_ifs at read with digits
  obtain rfl := Option.some.inj read
  exact digitsValue_lt digits.2

theorem readDigits_itoa (n : Nat) : readDigits (itoa n) = some n := by
  rw [readDigits, if_pos ⟨itoa_ne_nil n, Client.itoa_digit n⟩, digitsValue_itoa]

theorem readInteger_bounds {s rest : GoString} {b : UInt8} {i : Int} (starts : s = b :: rest)
    (read : readInteger s = some i) : (b = 45 ∨ b = 43 ∨ Parser.digit b = true) ∧
      i.natAbs < 10 ^ s.length := by
  have longer : 10 ^ rest.length ≤ 10 ^ s.length :=
    Nat.pow_le_pow_right (by decide) (by rw [starts, List.length_cons]; omega)
  rw [starts, readInteger] at read
  split_ifs at read with minus plus
  · obtain ⟨n, digits, rfl⟩ := Option.map_eq_some_iff.mp read
    have bound := readDigits_lt digits
    exact ⟨.inl minus, by omega⟩
  · obtain ⟨n, digits, rfl⟩ := Option.map_eq_some_iff.mp read
    have bound := readDigits_lt digits
    exact ⟨.inr (.inl plus), by omega⟩
  · obtain ⟨n, digits, rfl⟩ := Option.map_eq_some_iff.mp read
    have bound := readDigits_lt digits
    rw [← starts] at bound
    refine ⟨.inr (.inr ?_), by omega⟩
    unfold readDigits at digits
    split_ifs at digits with all
    exact List.all_eq_true.mp all.2 b (List.mem_cons_self ..)

theorem readInteger_printInt (v : Int) : readInteger (printInt v) = some v := by
  have read := readDigits_itoa v.natAbs
  unfold printInt
  split_ifs with negative
  · rw [readInteger, if_pos rfl, read, Option.map_some]
    congr 1
    omega
  · cases printed : itoa v.natAbs with
    | nil => exact absurd printed (itoa_ne_nil _)
    | cons b rest =>
      have range := itoa_digits v.natAbs b (by rw [printed]; exact List.mem_cons_self ..)
      have minus : b ≠ 45 := fun sign => absurd range.1 (by rw [sign]; decide)
      have plus : b ≠ 43 := fun sign => absurd range.1 (by rw [sign]; decide)
      rw [readInteger, if_neg minus, if_neg plus, ← printed, read, Option.map_some]
      congr 1
      omega

theorem length_printInt_le {v : Int} (small : v.natAbs < 10 ^ 19) : (printInt v).length ≤ 20 := by
  have digits := length_itoa_le small
  unfold printInt
  split_ifs
  · rw [List.length_cons]
    omega
  · omega

end Numbers

theorem binaryValue_int (printFloat : UInt64 → GoString) (v : Int) :
    binaryValue printFloat (.int v) = putUint32 (v % 4294967296).toNat := by
  unfold binaryValue
  have shifted : ((1 <<< 32 : Nat) : Int) = 4294967296 := by decide
  rw [shifted]

theorem int32_binaryValue (printFloat : UInt64 → GoString) (v : Int) :
    int32 (binaryValue printFloat (.int v)) = Int.bmod v 4294967296 := by
  have unsigned : ((v % 4294967296).toNat : Int) = v % 4294967296 :=
    Int.toNat_of_nonneg (Int.emod_nonneg _ (by decide))
  rw [binaryValue_int, int32_putUint32, unsigned]
  exact Int.emod_bmod v 4294967296

theorem bmod_eq_self_iff {v : Int} : Int.bmod v 4294967296 = v ↔ -2147483648 ≤ v ∧
    v < 2147483648 := by
  constructor
  · intro same
    have lower := Int.le_bmod (x := v) (m := 4294967296) (by decide)
    have upper := Int.bmod_lt (x := v) (m := 4294967296) (by decide)
    rw [same] at lower upper
    omega
  · intro range
    exact Int.bmod_eq_of_le (by omega) (by omega)

/-- A number that four bytes can spell is so small that the first of them is 0 or 255. -/
theorem readInteger_binaryValue_ne (printFloat : UInt64 → GoString) (v : Int) :
    readInteger (binaryValue printFloat (.int v)) ≠ some v := by
  intro read
  rw [binaryValue_int] at read
  obtain ⟨head, bound⟩ := readInteger_bounds (s := putUint32 (v % 4294967296).toNat) rfl read
  rw [length_putUint32] at bound
  have first : (UInt8.ofNat ((v % 4294967296).toNat / 65536 / 256)).toNat = 0 ∨
      (UInt8.ofNat ((v % 4294967296).toNat / 65536 / 256)).toNat = 255 := by
    rw [UInt8.toNat_ofNat']
    omega
  simp only [Parser.digit, Bool.and_eq_true, decide_eq_true_eq, UInt8.le_iff_toNat_le,
    ← UInt8.toNat_inj] at head
  have constants : (45 : UInt8).toNat = 45 ∧ (43 : UInt8).toNat = 43 ∧ (48 : UInt8).toNat = 48 ∧
      (57 : UInt8).toNat = 57 := by
    decide
  omega

section Paths

variable {a : Answer} {store : Store} {parsed : ParsedQuery} {v : Int}

theorem textOutcome_batched {s : Session} (batch : batched parsed s = true)
    (answered : a.world.enqueue.error = none) :
    (textOutcome a store parsed s).replies =
      if parsed.labelled then batchReplies a ++ [.readyForQuery] else [] := by
  have batchable := (Bool.and_eq_true_iff.mp batch).2
  rw [textOutcome, serveCached, not_cacheable_of_batchable batchable, batch, answered]
  cases labelled : parsed.labelled <;> simp [counting, labelled, Outcome.crash]

theorem portalOutcome_batched {params : List (Option GoString)} {s : Session}
    (batch : batched parsed s = true) (answered : a.world.enqueue.error = none) :
    (portalOutcome a store parsed params s).replies =
      if parsed.labelled then batchedRow a else [] := by
  have batchable := (Bool.and_eq_true_iff.mp batch).2
  rw [portalOutcome, executeKey, not_cacheable_of_batchable batchable, batch, answered]
  cases labelled : parsed.labelled <;> simp [counting, labelled, servePrepared, Outcome.crash]

theorem clientInteger_nil (c : Option Column) : clientInteger c [] ≠ some v := by
  cases c <;> nofun

theorem length_dataRow_one (format : Format) (value : GoString) :
    (Reply.dataRow [⟨format, some value⟩]).encode.length = value.length + 11 := by
  simp [Reply.encode, Field.encode, encodeMessage, putUint32, putUint16]

theorem fields_dataRow {value : GoString} {format : Format} (short : value.length ≤ 20) :
    (Reply.dataRow [⟨format, some value⟩]).fields = some [some value] := by
  have size := length_dataRow_one format value
  have row := @decodeDataRow_encode [⟨format, some value⟩] (by rw [List.length_singleton]; omega)
  rw [if_pos (by omega)] at row
  exact row

theorem sentField_dataRow {value : GoString} (format : Format) (short : value.length ≤ 20)
    (rest : List Reply) :
    sentField (.dataRow [⟨format, some value⟩] :: rest) = some value := by
  rw [sentField, List.findSome?_cons, fields_dataRow short]
  rfl

theorem fields_rowDescription (columns : List Column) :
    (Reply.rowDescription columns).fields = none := by
  have kind : ¬ (84 : UInt8) = 68 := by decide
  rw [Reply.fields, Reply.encode, encodeMessage, List.cons_append, decodeDataRow,
    if_neg fun row => kind row.1]

theorem clientInteger_batchReplies (small : v.natAbs < 10 ^ 19)
    (delivered : a.world.enqueue.returningValues = [.int v]) :
    clientInteger (announced (batchReplies a ++ [.readyForQuery]))
      (batchReplies a ++ [.readyForQuery]) = some v := by
  have replies : batchReplies a ++ [.readyForQuery] =
      [.rowDescription [textColumn (lit "id")], .dataRow [⟨.text, some (printInt v)⟩],
        .commandComplete (lit "INSERT 0 1"), .readyForQuery] := by
    rw [batchReplies, delivered]
    rfl
  have described :
      announced (batchReplies a ++ [.readyForQuery]) = some (textColumn (lit "id")) := by
    rw [replies]
    rfl
  have sent : sentField (batchReplies a ++ [.readyForQuery]) = some (printInt v) := by
    have row := sentField_dataRow .text (length_printInt_le small)
      [.commandComplete (lit "INSERT 0 1"), .readyForQuery]
    rw [replies, sentField, List.findSome?_cons, fields_rowDescription]
    exact row
  rw [described, clientInteger, sent]
  exact readInteger_printInt v

theorem clientInteger_batchedRow (delivered : a.world.enqueue.returningValues = [.int v])
    (c : Option Column) :
    clientInteger c (batchedRow a) = c.bind fun c =>
      c.readInt (binaryValue a.printFloat (.int v)) := by
  have four :
    (binaryValue a.printFloat (.int v)).length = 4 := by rw [binaryValue_int, length_putUint32]
  have replies : batchedRow a =
      [.dataRow [⟨.binary, some (binaryValue a.printFloat (.int v))⟩],
        .commandComplete (lit "INSERT 0 1")] := by
    rw [batchedRow, delivered]
  rw [replies, clientInteger, sentField_dataRow .binary (by omega)]
  rfl

theorem announced_describeStatement (query : GoString) :
    announced (describeStatement query).replies = none ∨
      ∃ name, announced (describeStatement query).replies = some ⟨name, 23, 4, .text⟩ := by
  cases size : oversized (countPostgresParams query) with
  | true => exact .inl (by simp [describeStatement, size, announced])
  | false =>
    cases found : Strings.index (Strings.toUpper query) (lit " RETURNING ") with
    | none => exact .inl (by simp [describeStatement, size, found, announced, Reply.firstColumn])
    | some index =>
      cases named : returningColumn query index with
      | none =>
        exact .inl (by simp [describeStatement, size, found, named, announced, Reply.firstColumn])
      | some colName =>
        refine .inr ⟨colName, ?_⟩
        simp only [describeStatement, size, found, named]
        rfl

theorem readInt_binary_iff (printFloat : UInt64 → GoString) (name : GoString) :
    Column.readInt ⟨name, 23, 4, .binary⟩ (binaryValue printFloat (.int v)) = some v ↔
      -2147483648 ≤ v ∧ v < 2147483648 := by
  have four :
    (binaryValue printFloat (.int v)).length = 4 := by rw [binaryValue_int, length_putUint32]
  have power : 256 ^ 4 = 4294967296 := by decide
  have value := int32_binaryValue printFloat v
  unfold int32 at value
  rw [Column.readInt, four, if_pos rfl, Option.some_inj, ← bmod_eq_self_iff, ← value, power]

end Paths

/-- The value is read from the answer to a simple query, unless the proxy panics on the label
of its file, and never from the answer to an execution by the description of its statement.
Read in binary, the four bytes are the value as far as it is a number of 32 bits. -/
theorem returned_value_read_iff {a : Answer} {v : Int}
    (range : -9223372036854775808 ≤ v ∧ v < 9223372036854775808)
    (delivered : a.world.enqueue.returningValues = [.int v])
    (answered : a.world.enqueue.error = none) :
    (∀ (store : Store) (payload : List UInt8) (s : Session),
      asksStatus (queryText payload) = false →
      batched (parse (queryText payload)) (trackTransaction (queryText payload) s) = true →
      (clientInteger (announced (queryOutcome a store payload s).replies)
          (queryOutcome a store payload s).replies = some v ↔
        (parse (queryText payload)).labelled = true)) ∧
    ∀ (store : Store) (described s : Session)
      (query body stmtName rest payload portalName after : List UInt8)
      (params : List (Option GoString)), takeName body = some (stmtName, rest) →
      lookup stmtName described.preparedStatements = some query →
      takeName payload = some (portalName, after) →
      portalRun s portalName = some (query, params) → batched (parse query) s = true →
      clientInteger (announced (describeOutcome (83 :: body) described).replies)
          (executeOutcome a store payload s).replies ≠ some v ∧
        ∀ column, announced (describeOutcome (83 :: body) described).replies = some column →
          (clientInteger (some { column with format := .binary })
              (executeOutcome a store payload s).replies = some v ↔
            (parse query).labelled = true ∧ -2147483648 ≤ v ∧ v < 2147483648) := by
  refine ⟨fun store payload s asks batch => ?_, ?_⟩
  · have replies : (queryOutcome a store payload s).replies =
        if (parse (queryText payload)).labelled then batchReplies a ++ [.readyForQuery] else
          [] := by
      rw [queryOutcome, asks]
      exact textOutcome_batched batch answered
    rw [replies]
    cases (parse (queryText payload)).labelled with
    | false => exact iff_of_false (clientInteger_nil _) Bool.false_ne_true
    | true => exact iff_of_true (clientInteger_batchReplies (by omega) delivered) rfl
  · intro store described s query body stmtName rest payload portalName after params named
      prepared executed bound batch
    rw [describeOutcome_statement named prepared, executeOutcome_portal executed bound,
      portalOutcome_batched batch answered]
    cases (parse query).labelled with
    | false =>
      refine ⟨clientInteger_nil _, fun c _ => ?_⟩
      exact iff_of_false (clientInteger_nil _) fun both => Bool.false_ne_true both.1
    | true =>
      simp only [if_true, clientInteger_batchedRow delivered, true_and]
      rcases announced_describeStatement query with silent | ⟨name, column⟩
      · rw [silent]
        exact ⟨nofun, nofun⟩
      · rw [column]
        refine ⟨readInteger_binaryValue_ne a.printFloat v, fun c same => ?_⟩
        obtain rfl := Option.some.inj same
        exact readInt_binary_iff a.printFloat name

theorem no_rows_square :
    ∀ row ∈ ([] : List (List (Option GoString))), row.length = ([] : List GoString).length := by
  simp

def returning (v : Int) : Answer where
  world := { enqueue := { returningValues := [.int v] } }
  rows := { square := no_rows_square }

def bound : Session :=
  { client with
    preparedStatements := [(lit "q", lit "/* batch:10 */ INSERT INTO t VALUES ($1) RETURNING a")]
    portalStatements := [([], lit "q")]
    boundParams := [([], [some (lit "7")])] }

theorem returned_value_read_five :
    clientInteger (announced (queryOutcome (returning 5) (fun _ => none)
        (lit "/* batch:10 */ INSERT INTO t VALUES (7) RETURNING a" ++ [0]) client).replies)
      (queryOutcome (returning 5) (fun _ => none)
        (lit "/* batch:10 */ INSERT INTO t VALUES (7) RETURNING a" ++ [0]) client).replies =
          some 5 ∧
    clientInteger (announced (describeOutcome (83 :: (lit "q" ++ [0])) bound).replies)
      (executeOutcome (returning 5) (fun _ => none) [0, 0, 0, 0, 0] bound).replies ≠ some 5 := by
  obtain ⟨simple, extended⟩ :=
    returned_value_read_iff (a := returning 5) (v := 5) (by decide) rfl rfl
  have named : takeName (lit "q" ++ [0]) = some (lit "q", []) := by decide
  have portal : takeName [0, 0, 0, 0, 0] = some ([], [0, 0, 0, 0]) := by decide
  exact ⟨(simple _ _ _ (by decide +kernel) (by decide +kernel)).mpr (by decide +kernel),
    (extended _ bound bound _ _ _ _ _ _ _ _ named rfl portal rfl (by decide +kernel)).1⟩

/-- The value 2 ^ 32 + 5: the column is announced as a text of type int4, the four bytes
that are sent are no text of an integer, and in binary they are 5. -/
theorem returned_value_truncated :
    (described "/* batch:10 */ INSERT INTO t VALUES ($1) RETURNING a" (returning 4294967301)).map
        (fun x => (announced x.1, sentField x.2, clientInteger (announced x.1) x.2)) =
      some (some ⟨lit "a", 23, 4, .text⟩, some [0, 0, 0, 5], none) ∧
    Column.readInt ⟨lit "a", 23, 4, .binary⟩ [0, 0, 0, 5] = some 5 := by
  decide +kernel

end TQDBProxy.Postgres
