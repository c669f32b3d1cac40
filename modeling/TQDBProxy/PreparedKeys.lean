import TQDBProxy.MariaDBSession
import TQDBProxy.MySqlWire
import TQDBProxy.PostgresSession

/-! The bytes that are digested for a prepared execution. Both proxies write the database,
the text and the parameters one after the other, without lengths between them. -/

namespace TQDBProxy

theorem map_eq_of_flatMap_eq {α : Type} (f : α → GoString) {xs ys : List α}
    (lengths : xs.map (fun x => (f x).length) = ys.map fun y => (f y).length)
    (same : xs.flatMap f = ys.flatMap f) :
    xs.map f = ys.map f := by
  induction xs generalizing ys with
  | nil =>
    cases ys with
    | nil => rfl
    | cons y ys => cases lengths
  | cons x xs ih =>
    cases ys with
    | nil => cases lengths
    | cons y ys =>
      rw [List.map_cons, List.map_cons] at lengths
      obtain ⟨first, rest⟩ := List.cons.inj lengths
      rw [List.flatMap_cons, List.flatMap_cons] at same
      obtain ⟨head, tail⟩ := List.append_inj same first
      rw [List.map_cons, List.map_cons, head, ih rest tail]

namespace Postgres

open TQDBProxy.Parser

structure CachedExecution where
  database : GoString
  parsed : ParsedQuery
  params : List (Option GoString)
  cacheable : parsed.isCacheable = true
  bound : params ≠ []

namespace CachedExecution

def key (e : CachedExecution) : Option CacheKey := executeKey e.database e.parsed e.params

def widths (e : CachedExecution) : List Nat := e.params.map fun p => (printParam p).length

def nulls (e : CachedExecution) : List Bool := e.params.map Option.isNone

theorem key_eq (e : CachedExecution) :
    e.key = some (.prepared (e.database ++ e.parsed.query ++ e.params.flatMap printParam)) := by
  have some : e.params.isEmpty = false := List.isEmpty_eq_false_iff.mpr e.bound
  rw [key, executeKey, e.cacheable, some]
  rfl

end CachedExecution

theorem params_eq_of_printed {ps qs : List (Option GoString)}
    (printed : ps.map printParam = qs.map printParam)
    (nulls : ps.map Option.isNone = qs.map Option.isNone) : ps = qs := by
  induction ps generalizing qs with
  | nil =>
    cases qs with
    | nil => rfl
    | cons q qs => cases printed
  | cons p ps ih =>
    cases qs with
    | nil => cases printed
    | cons q qs =>
      rw [List.map_cons, List.map_cons] at printed nulls
      obtain ⟨text, texts⟩ := List.cons.inj printed
      obtain ⟨null, rest⟩ := List.cons.inj nulls
      have same : p = q := by
        cases p with
        | none =>
          cases q with
          | none => rfl
          | some t => cases null
        | some s =>
          cases q with
          | none => cases null
          | some t => exact congrArg some text
      rw [same, ih texts rest]

/-- Exactly when database, text and printed parameters end at the same places and the same
parameters are NULL. -/
theorem execute_key_injective_iff (e f : CachedExecution) (same : e.key = f.key) :
    (e.database = f.database ∧ e.parsed.query = f.parsed.query ∧ e.params = f.params) ↔
      e.database.length = f.database.length ∧ e.parsed.query.length = f.parsed.query.length ∧
        e.widths = f.widths ∧ e.nulls = f.nulls := by
  rw [e.key_eq, f.key_eq, Option.some_inj, CacheKey.prepared.injEq] at same
  constructor
  · rintro ⟨database, query, params⟩
    rw [database, query, CachedExecution.widths, CachedExecution.nulls, params]
    exact ⟨rfl, rfl, rfl, rfl⟩
  · rintro ⟨database, query, widths, nulls⟩
    obtain ⟨texts, params⟩ :=
      List.append_inj same (by rw [List.length_append, List.length_append, database, query])
    obtain ⟨databases, queries⟩ := List.append_inj texts database
    exact ⟨databases, queries, params_eq_of_printed (map_eq_of_flatMap_eq printParam widths params)
      nulls⟩

def forMinute : ParsedQuery := parse (lit "/* ttl:60 */ SELECT a FROM t WHERE b = $1 AND c = $2")

def forHour : ParsedQuery := parse (lit "/* ttl:3600 */ SELECT a FROM t WHERE b = $1 AND c = $2")

theorem forMinute_cacheable : forMinute.isCacheable = true := by decide +kernel

theorem forHour_cacheable : forHour.isCacheable = true := by decide +kernel

def pairFor (first second : Option GoString) {parsed : ParsedQuery}
    (cacheable : parsed.isCacheable = true) :
    CachedExecution :=
  ⟨lit "shop", parsed, [first, second], cacheable, List.cons_ne_nil _ _⟩

/-- The same values under two TTLs. -/
theorem execute_key_injective_ttl :
    (pairFor (some (lit "1")) none forMinute_cacheable).key =
    (pairFor (some (lit "1")) none forHour_cacheable).key ∧
      (pairFor (some (lit "1")) none forMinute_cacheable).parsed.query =
        (pairFor (some (lit "1")) none forHour_cacheable).parsed.query := by
  have same : (pairFor (some (lit "1")) none forMinute_cacheable).key =
      (pairFor (some (lit "1")) none forHour_cacheable).key := by decide +kernel
  have query : (pairFor (some (lit "1")) none forMinute_cacheable).parsed.query.length =
      (pairFor (some (lit "1")) none forHour_cacheable).parsed.query.length := by decide +kernel
  exact ⟨same, ((execute_key_injective_iff _ _ same).mpr
    ⟨by decide +kernel, query, by decide +kernel, by decide +kernel⟩).2.1⟩

/-- The values 1 and 23 have the key of 12 and 3, and a NULL that of the text <nil>. -/
theorem execute_key_collides :
    (pairFor (some (lit "1")) (some (lit "23")) forMinute_cacheable).key =
        (pairFor (some (lit "12")) (some (lit "3")) forMinute_cacheable).key ∧
    (pairFor (some (lit "1")) (some (lit "23")) forMinute_cacheable).params ≠
        (pairFor (some (lit "12")) (some (lit "3")) forMinute_cacheable).params ∧
    (pairFor none none forMinute_cacheable).key =
    (pairFor none (some (lit "<nil>")) forMinute_cacheable).key ∧
    (pairFor none none forMinute_cacheable).params ≠
        (pairFor none (some (lit "<nil>")) forMinute_cacheable).params := by
  decide +kernel

end Postgres

namespace MariaDB

open MySqlWire TQDBProxy.Parser

/-! ### Typed values of an execution -/

abbrev ParamType := UInt8 × UInt8

structure TypedValue where
  type : ParamType
  bytes : Option (List UInt8)
  deriving DecidableEq

def fixedWidth (code : UInt8) : Option Nat :=
  if code = 0x01 then some 1
  else if code = 0x02 ∨ code = 0x0d then some 2
  else if code = 0x03 ∨ code = 0x04 ∨ code = 0x09 then some 4
  else if code = 0x05 ∨ code = 0x08 then some 8
  else if code = 0x06 then some 0
  else none

/-- The types of dates and times, with their length in one byte. -/
def isTime (code : UInt8) : Bool := code = 0x07 || code = 0x0a || code = 0x0b || code = 0x0c

def readValue (code : UInt8) (values : List UInt8) : Option (List UInt8 × List UInt8) :=
  let sized (size : Nat) (rest : List UInt8) :=
    if rest.length < size then none else some (rest.take size, rest.drop size)
  match fixedWidth code with
  | some width => sized width values
  | none =>
    if isTime code then values.head?.bind fun size => sized size.toNat values.tail
    else (lenenc values).bind fun x => sized x.1 x.2

def readValues (nullBitmap : List UInt8) : Nat → List ParamType → List UInt8 →
    Option (List TypedValue)
  | _, [], _ => some []
  | i, type :: types, values =>
    if (nullBitmap.getD (i / 8) 0).toNat.testBit (i % 8) then
      (readValues nullBitmap (i + 1) types values).map (⟨type, none⟩ :: ·)
    else
      (readValue type.1 values).bind fun x =>
        (readValues nullBitmap (i + 1) types x.2).map (⟨type, some x.1⟩ :: ·)

/-- A packet after the number of its statement: flags and iteration count, the bitmap, a
byte that tells whether types follow, the types and the values. -/
def bitmapSize (numParams : Nat) : Nat := (numParams + 7) / 8

def typesSent (numParams : Nat) (body : List UInt8) : Bool :=
  body[5 + bitmapSize numParams]? == some 1

def readTypes : Nat → List UInt8 → Option (List ParamType)
  | 0, _ => some []
  | n + 1, code :: flags :: rest => (readTypes n rest).map ((code, flags) :: ·)
  | _ + 1, _ => none

def boundTypes (numParams : Nat) (carried : Option (List ParamType)) (body : List UInt8) :
    Option (List ParamType) :=
  if typesSent numParams body then readTypes numParams (body.drop (6 + bitmapSize numParams))
    else carried

def readTyped (numParams : Nat) (carried : Option (List ParamType)) (body : List UInt8) :
    Option (List TypedValue) :=
  if numParams = 0 then some []
  else
    (boundTypes numParams carried body).bind fun types =>
      readValues ((body.drop 5).take (bitmapSize numParams)) 0 types
        (body.drop
          (6 + bitmapSize numParams + if typesSent numParams body then 2 * numParams else 0))

/-- An execution whose result is cached. The types that a packet does not send are those
of the `earlier` packets of the statement; the backend reads the values. -/
structure CachedExecution where
  db : GoString
  parsed : ParsedQuery
  cacheable : parsed.isCacheable = true
  numParams : Nat
  earlier : List (List UInt8)
  data : List UInt8
  values : List TypedValue
  read : readTyped numParams (earlier.foldl (boundTypes numParams) none) (data.drop 4) = some values

namespace CachedExecution

def key (e : CachedExecution) : CacheKey := executeKey e.db e.parsed.query e.data

def carried (e : CachedExecution) : Option (List ParamType) :=
  e.earlier.foldl (boundTypes e.numParams) none

def sendsTypes (e : CachedExecution) : Bool := typesSent e.numParams (e.data.drop 4)

end CachedExecution

/-! ### Types and values -/

section Types

variable {n : Nat} {types : List ParamType} {carried : Option (List ParamType)}

theorem length_readTypes {bytes : List UInt8} (read : readTypes n bytes = some types) :
    types.length = n := by
  induction n generalizing bytes types with
  | zero =>
    obtain rfl := Option.some.inj read
    rfl
  | succ n ih =>
    match bytes with
    | [] => cases read
    | [_] => cases read
    | code :: flags :: rest =>
      rw [readTypes] at read
      obtain ⟨later, found, rfl⟩ := Option.map_eq_some_iff.mp read
      rw [List.length_cons, ih found]

theorem length_boundTypes {body : List UInt8} (before : ∀ types, carried = some types →
    types.length = n)
    (bound : boundTypes n carried body = some types) : types.length = n := by
  unfold boundTypes at bound
  split at bound
  · exact length_readTypes bound
  · exact before types bound

theorem length_carried (carried : Option (List ParamType)) (earlier : List (List UInt8))
    (before : ∀ types, carried = some types → types.length = n) :
    ∀ types, earlier.foldl (boundTypes n) carried = some types → types.length = n := by
  induction earlier generalizing carried with
  | nil => exact before
  | cons body earlier ih => exact ih _ fun types bound => length_boundTypes before bound

theorem types_readValues {nullBitmap values : List UInt8} {i : Nat} {read : List TypedValue}
    (reads : readValues nullBitmap i types values = some read) :
      read.map TypedValue.type = types := by
  induction types generalizing i values read with
  | nil =>
    obtain rfl := Option.some.inj reads
    rfl
  | cons type types ih =>
    rw [readValues] at reads
    split at reads
    · obtain ⟨later, found, rfl⟩ := Option.map_eq_some_iff.mp reads
      rw [List.map_cons, ih found]
    · obtain ⟨x, -, rest⟩ := Option.bind_eq_some_iff.mp reads
      obtain ⟨later, found, rfl⟩ := Option.map_eq_some_iff.mp rest
      rw [List.map_cons, ih found]

theorem types_readTyped {body : List UInt8} {values : List TypedValue} (present : n ≠ 0)
    (reads : readTyped n carried body = some values) :
    boundTypes n carried body = some (values.map TypedValue.type) := by
  rw [readTyped, if_neg present] at reads
  obtain ⟨types, bound, read⟩ := Option.bind_eq_some_iff.mp reads
  rw [types_readValues read, bound]

theorem readTyped_congr {carried' : Option (List ParamType)} {body : List UInt8}
    (types : n = 0 ∨ typesSent n body = true ∨ carried = carried') :
    readTyped n carried body = readTyped n carried' body := by
  rcases types with none | sent | same
  · rw [readTyped, readTyped, if_pos none, if_pos none]
  · rw [readTyped, readTyped, boundTypes, boundTypes, sent]
    rfl
  · rw [same]

end Types

namespace CachedExecution

theorem length_values (e : CachedExecution) : e.values.length = e.numParams := by
  have read := e.read
  by_cases none : e.numParams = 0
  · rw [readTyped, if_pos none] at read
    rw [← Option.some.inj read, none]
    rfl
  · have before := length_carried (n := e.numParams) .none e.earlier nofun
    have types := length_boundTypes before (types_readTyped none read)
    rwa [List.length_map] at types

end CachedExecution

/-- Exactly when database and text end at the same places, the statements have as many
parameters, and their types were sent with the packet or bound alike before it. -/
theorem execute_packet_injective_iff (e f : CachedExecution) (same : e.key = f.key) :
    (e.db = f.db ∧ e.parsed.query = f.parsed.query ∧ e.values = f.values) ↔
      e.db.length = f.db.length ∧ e.parsed.query.length = f.parsed.query.length ∧
        e.numParams = f.numParams ∧
        (e.numParams = 0 ∨ e.sendsTypes = true ∨ e.carried = f.carried) := by
  rw [CachedExecution.key, CachedExecution.key, executeKey, executeKey,
    CacheKey.prepared.injEq] at same
  have readE := e.read
  have readF := f.read
  constructor
  · rintro ⟨db, query, values⟩
    have number : e.numParams = f.numParams := by rw [← e.length_values, ← f.length_values, values]
    refine ⟨by rw [db], by rw [query], number, ?_⟩
    by_cases none : e.numParams = 0
    · exact .inl none
    cases sent : e.sendsTypes with
    | true => exact .inr (.inl rfl)
    | false =>
      have body : e.data.drop 4 = f.data.drop 4 := by
        rw [db, query] at same
        exact List.append_cancel_left same
      have typesE := types_readTyped none readE
      have typesF := types_readTyped (number ▸ none) readF
      unfold CachedExecution.sendsTypes at sent
      rw [boundTypes, sent] at typesE
      rw [boundTypes, ← number, ← body, sent, ← values] at typesF
      refine .inr (.inr ?_)
      rw [CachedExecution.carried, CachedExecution.carried, ← number]
      exact typesE.trans typesF.symm
  · rintro ⟨db, query, number, types⟩
    obtain ⟨texts, body⟩ :=
      List.append_inj same (by rw [List.length_append, List.length_append, db, query])
    obtain ⟨databases, queries⟩ := List.append_inj texts db
    refine ⟨databases, queries, Option.some.inj ?_⟩
    rw [← readE, ← readF, ← body, ← number]
    rw [CachedExecution.carried, CachedExecution.carried, ← number] at types
    exact readTyped_congr types

/-! ### Two sessions -/

def idQuery : ParsedQuery := parse (lit "/* ttl:60 */ SELECT a FROM t WHERE b = ?")

theorem idQuery_cacheable : idQuery.isCacheable = true := by decide +kernel

def typedPacket (type : ParamType) (value : List UInt8) : List UInt8 :=
  [0, 1, 0, 0, 0, 0, 1, type.1, type.2] ++ value

def barePacket (value : List UInt8) : List UInt8 := [0, 1, 0, 0, 0, 0, 0] ++ value

def executionAfter (type : ParamType) (data : List UInt8) (values : List TypedValue)
    (read : readTyped 1 ([typedPacket type [0, 0, 0, 0]].foldl (boundTypes 1) none) (data.drop 4) =
      some values) :
    CachedExecution :=
  ⟨lit "shop", idQuery, idQuery_cacheable, 1, [typedPacket type [0, 0, 0, 0]], data, values, read⟩

def resent : CachedExecution :=
  executionAfter (0x04, 0) ([7, 0, 0, 0] ++ typedPacket (0x03, 0) [0, 0, 128, 63])
    [⟨(0x03, 0), some [0, 0, 128, 63]⟩] rfl

def repeated : CachedExecution :=
  executionAfter (0x03, 0) ([9, 0, 0, 0] ++ typedPacket (0x03, 0) [0, 0, 128, 63])
    [⟨(0x03, 0), some [0, 0, 128, 63]⟩] rfl

theorem execute_packet_injective_sent :
    resent.key = repeated.key ∧ resent.carried ≠ repeated.carried ∧
      resent.values = repeated.values := by
  have same : resent.key = repeated.key := by decide +kernel
  exact ⟨same, by decide +kernel, ((execute_packet_injective_iff resent repeated same).mpr
    ⟨rfl, rfl, rfl, .inr (.inl (by decide +kernel))⟩).2.2⟩

def carriedLong : CachedExecution :=
  executionAfter (0x03, 0) ([7, 0, 0, 0] ++ barePacket [0, 0, 128, 63])
    [⟨(0x03, 0), some [0, 0, 128, 63]⟩] rfl

def carriedFloat : CachedExecution :=
  executionAfter (0x04, 0) ([9, 0, 0, 0] ++ barePacket [0, 0, 128, 63])
    [⟨(0x04, 0), some [0, 0, 128, 63]⟩] rfl

theorem execute_packet_collides :
    carriedLong.key = carriedFloat.key ∧ carriedLong.values = [⟨(0x03, 0), some [0, 0, 128, 63]⟩] ∧
      carriedFloat.values = [⟨(0x04, 0), some [0, 0, 128, 63]⟩] ∧
        carriedLong.values ≠ carriedFloat.values := by
  decide +kernel

end MariaDB

end TQDBProxy
