import TQDBProxy.EscapedFields
import TQDBProxy.StatementBoundaries
import TQDBProxy.WriteBatchTypes

/-! The payload of LOAD DATA LOCAL INFILE for a batch, against the way MySQL reads it by
default. The escaping of a string goes through its runes, so the bytes of a string that is
not well-formed UTF-8 do not come back. -/

namespace TQDBProxy.WriteBatch

open Utf8 EscapedFields MariaDB

/-! ### What is written -/

def formatInt (i : Int) : GoString :=
  if i < 0 then 45 :: Strconv.itoa i.natAbs else Strconv.itoa i.natAbs

def escapeRune (ch : Nat) : GoString :=
  if ch = 92 then [92, 92]
  else if ch = 9 then [92, 116]
  else if ch = 10 then [92, 110]
  else if ch = 13 then [92, 114]
  else encodeRune ch

def escapeLoadDataString (s : GoString) : GoString := (runes s).flatMap escapeRune

def formatLoadDataParam (formatFloat : UInt64 → GoString) : Value → GoString
  | .null => [92, 78]
  | .bool val => if val then [49] else [48]
  | .int val => formatInt val
  | .uint val => Strconv.itoa val
  | .float val => formatFloat val
  | .string val => escapeLoadDataString val
  | .bytes val => escapeLoadDataString val
  | .other rendered => escapeLoadDataString rendered

/-- The parameters of each request on a line, with tabs between them. -/
def loadPayload (formatFloat : UInt64 → GoString) (requests : List (List Value)) : GoString :=
  requests.flatMap fun params => joinWith [9] (params.map (formatLoadDataParam formatFloat)) ++ [10]

/-! ### What is read -/

def mysqlRules : Rules UInt8 where
  escape := 92
  fieldEnd := 9
  lineEnd := 10
  nullMark := 78
  unescape c :=
    if c = 48 then 0
    else if c = 98 then 8
    else if c = 110 then 10
    else if c = 114 then 13
    else if c = 116 then 9
    else if c = 90 then 26
    else c

def paramText (formatFloat : UInt64 → GoString) : Value → Option GoString
  | .null => none
  | .bool val => some (if val then lit "1" else lit "0")
  | .int val => some (formatInt val)
  | .uint val => some (Strconv.itoa val)
  | .float val => some (formatFloat val)
  | .string val => some val
  | .bytes val => some val
  | .other rendered => some rendered

def loadable : Value → Bool
  | .float _ => false
  | .other _ => false
  | _ => true

def wellFormed : Value → Bool
  | .string val => valid val
  | .bytes val => valid val
  | _ => true

theorem mysqlRules_distinct : mysqlRules.Distinct := ⟨by decide, by decide, by decide⟩

/-! ### Strings -/

variable {formatFloat : UInt64 → GoString}

def unmarked (c : UInt8) : Prop := c ≠ 92 ∧ c ≠ 9 ∧ c ≠ 10

theorem reads_unmarked {text : GoString} (free : ∀ c ∈ text, unmarked c) :
    Reads mysqlRules text text false :=
  Reads.verbatim free

theorem reads_escapeRune {ch : Nat} (scalar : Scalar ch) :
    Reads mysqlRules (escapeRune ch) (encodeRune ch) false := by
  unfold escapeRune
  split
  · rename_i backslash
    rw [backslash]
    exact Reads.escaped 92
  · rename_i noEscape
    split
    · rename_i tab
      rw [tab]
      exact Reads.escaped 116
    · rename_i noTab
      split
      · rename_i newline
        rw [newline]
        exact Reads.escaped 110
      · rename_i noLine
        split
        · rename_i returns
          rw [returns]
          exact Reads.escaped 114
        · refine reads_unmarked fun c mem => ?_
          by_cases wide : 0x80 ≤ ch
          · have high := Quoting.encodeRune_wide scalar wide c mem
            refine ⟨?_, ?_, ?_⟩ <;> rintro rfl <;> exact absurd high (by decide)
          · have byte : (UInt8.ofNat ch).toNat = ch := toNat_ofNat (by omega)
            rw [encodeRune_ascii (Nat.lt_of_not_le wide)] at mem
            rw [List.mem_singleton.mp mem]
            refine ⟨?_, ?_, ?_⟩
            · exact fun same => noEscape (by rw [← byte, same]; rfl)
            · exact fun same => noTab (by rw [← byte, same]; rfl)
            · exact fun same => noLine (by rw [← byte, same]; rfl)

theorem reads_escape (s : GoString) :
    Reads mysqlRules (escapeLoadDataString s) (encode (runes s)) false := by
  have scalars := scalar_runes s
  rw [escapeLoadDataString, encode]
  generalize runes s = rs at scalars
  induction rs with
  | nil => exact Reads.nil
  | cons r rs ih =>
    rw [List.forall_mem_cons] at scalars
    exact (reads_escapeRune scalars.1).append (ih scalars.2)

/-! ### Parameters -/

theorem unmarked_itoa (n : Nat) : ∀ c ∈ Strconv.itoa n, unmarked c := by
  intro c mem
  have digit := Strconv.itoa_digits n c mem
  refine ⟨?_, ?_, ?_⟩ <;> rintro rfl <;> exact absurd digit (by decide)

theorem unmarked_formatInt (i : Int) : ∀ c ∈ formatInt i, unmarked c := by
  unfold formatInt
  split
  · exact List.forall_mem_cons.mpr ⟨⟨by decide, by decide, by decide⟩, unmarked_itoa _⟩
  · exact unmarked_itoa _

def readText (v : Value) : Option GoString :=
  match v with
  | .string val => some (encode (runes val))
  | .bytes val => some (encode (runes val))
  | v => paramText (fun _ => []) v

theorem written_param (formatFloat : UInt64 → GoString) {v : Value} (plain : loadable v = true) :
    ∃ w : Written mysqlRules, w.text = formatLoadDataParam formatFloat v ∧
      w.field = readText v := by
  cases v with
  | null => exact ⟨⟨[92, 78], [78], true, Reads.escaped 78⟩, rfl, rfl⟩
  | bool val => cases val with
    | true =>
      exact ⟨⟨[49], [49], false, Reads.plain (by decide) (by decide) (by decide)⟩, rfl, by decide⟩
    | false =>
      exact ⟨⟨[48], [48], false, Reads.plain (by decide) (by decide) (by decide)⟩, rfl, by decide⟩
  | int val =>
    exact ⟨⟨formatInt val, formatInt val, false, reads_unmarked (unmarked_formatInt val)⟩, rfl, rfl⟩
  | uint val =>
    exact ⟨⟨Strconv.itoa val, Strconv.itoa val, false, reads_unmarked (unmarked_itoa val)⟩,
      rfl, rfl⟩
  | float | other => cases plain
  | string val | bytes val =>
    exact ⟨⟨escapeLoadDataString val, encode (runes val), false, reads_escape val⟩, rfl, rfl⟩

theorem readText_iff (formatFloat : UInt64 → GoString) {v : Value} (plain : loadable v = true) :
    readText v = paramText formatFloat v ↔ wellFormed v = true := by
  have text (val : GoString) : some (encode (runes val)) = some val ↔ valid val = true := by
    rw [Option.some.injEq]
    constructor
    · intro same
      rw [← same]
      exact valid_encode_runes val
    · exact encode_runes
  cases v with
  | null | bool | int | uint => exact iff_of_true rfl rfl
  | float | other => cases plain
  | string val | bytes val => exact text val

/-! ### The payload -/

theorem written_lines (formatFloat : UInt64 → GoString) {requests : List (List Value)}
    (plain : ∀ params ∈ requests, ∀ v ∈ params, loadable v = true) :
    ∃ lines : List (List (Written mysqlRules)),
      lines.map (·.map (·.text)) = requests.map (·.map (formatLoadDataParam formatFloat)) ∧
        lines.map (·.map Written.field) = requests.map (·.map readText) := by
  have line {params : List Value} (plain : ∀ v ∈ params, loadable v = true) :
      ∃ fields :
        List (Written mysqlRules), fields.map (·.text) =
          params.map (formatLoadDataParam formatFloat) ∧
        fields.map Written.field = params.map readText := by
    induction params with
    | nil => exact ⟨[], rfl, rfl⟩
    | cons v params ih =>
      rw [List.forall_mem_cons] at plain
      obtain ⟨w, text, field⟩ := written_param formatFloat plain.1
      obtain ⟨fields, texts, rest⟩ := ih plain.2
      exact ⟨w :: fields, by rw [List.map_cons, List.map_cons, text, texts],
        by rw [List.map_cons, List.map_cons, field, rest]⟩
  induction requests with
  | nil => exact ⟨[], rfl, rfl⟩
  | cons params requests ih =>
    rw [List.forall_mem_cons] at plain
    obtain ⟨fields, texts, values⟩ := line plain.1
    obtain ⟨lines, later, rest⟩ := ih plain.2
    exact ⟨fields :: lines, by rw [List.map_cons, List.map_cons, texts, later],
      by rw [List.map_cons, List.map_cons, values, rest]⟩

theorem readLines_loadPayload (formatFloat : UInt64 → GoString) {requests : List (List Value)}
    (filled : ∀ params ∈ requests, params ≠ [])
    (plain : ∀ params ∈ requests, ∀ v ∈ params, loadable v = true) :
    readLines mysqlRules (loadPayload formatFloat requests) = requests.map (·.map readText) := by
  obtain ⟨lines, texts, values⟩ := written_lines formatFloat plain
  have payload : loadPayload formatFloat requests =
      lines.flatMap fun line => writeLine mysqlRules (line.map (·.text)) := by
    have written := congrArg (List.flatMap (writeLine mysqlRules)) texts
    rw [List.flatMap_map, List.flatMap_map] at written
    exact written.symm
  have some : ∀ line ∈ lines, line ≠ [] := by
    intro line mem nil
    have inside : line.map (·.text) ∈ requests.map (·.map (formatLoadDataParam formatFloat)) := by
      rw [← texts]
      exact List.mem_map_of_mem mem
    obtain ⟨params, mem', same⟩ := List.mem_map.mp inside
    rw [nil, List.map_nil, List.map_eq_nil_iff] at same
    exact filled params mem' same
  rw [payload, readLines_written mysqlRules_distinct some]
  exact values

/-- Parameter lists of at least one parameter are read back as they were exactly when the
strings among the parameters are well-formed UTF-8. -/
theorem load_data_round_trip_iff (formatFloat : UInt64 → GoString) (requests : List (List Value))
    (filled : ∀ params ∈ requests, params ≠ [])
    (plain : ∀ params ∈ requests, ∀ v ∈ params, loadable v = true) :
    readLines mysqlRules (loadPayload formatFloat requests) =
      requests.map (·.map (paramText formatFloat)) ↔
      ∀ params ∈ requests, ∀ v ∈ params, wellFormed v = true := by
  rw [readLines_loadPayload formatFloat filled plain, List.map_inj_left]
  refine forall₂_congr fun params mem => ?_
  rw [List.map_inj_left]
  exact forall₂_congr fun v inside => readText_iff formatFloat (plain params mem v inside)

def quotedRows : List (List Value) :=
  [[.null, .string (lit "a\tb\\N"), .int (-5)], [.string [], .bool true, .uint 7]]

theorem quoted_rows_read :
    readLines mysqlRules (loadPayload (fun _ => []) quotedRows) =
      [[none, some (lit "a\tb\\N"), some (lit "-5")],
        [some [], some (lit "1"), some (lit "7")]] := by
  have loads : quotedRows.all (·.all loadable) = true := by decide +kernel
  have formed : quotedRows.all (·.all wellFormed) = true := by decide +kernel
  refine (load_data_round_trip_iff (fun _ => []) quotedRows ?_ ?_).mpr ?_
  · exact List.forall_mem_cons.mpr
      ⟨List.cons_ne_nil _ _, List.forall_mem_singleton.mpr (List.cons_ne_nil _ _)⟩
  · exact fun params mem v inside =>
      List.all_eq_true.mp (List.all_eq_true.mp loads params mem) v inside
  · exact fun params mem v inside =>
      List.all_eq_true.mp (List.all_eq_true.mp formed params mem) v inside

/-- The byte 255, alone in a parameter, is read as the three bytes of U+FFFD. -/
theorem stray_byte_replaced :
    loadPayload (fun _ => []) [[.bytes [255]]] = [239, 191, 189, 10] ∧
      readLines mysqlRules (loadPayload (fun _ => []) [[.bytes [255]]]) = [[some [239, 191, 189]]] ∧
      [[Value.bytes [255]]].map (·.map (paramText fun _ => [])) = [[some [255]]] := by
  decide +kernel

end TQDBProxy.WriteBatch
