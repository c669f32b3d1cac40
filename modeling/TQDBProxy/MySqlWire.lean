import Mathlib.Algebra.Group.Nat.Defs
import TQDBProxy.GoStrings

/-! Packets of the MySQL client/server protocol (4.1, without DEPRECATE_EOF) and the
responses to a command: a chain of results, each an OK, an error, or a result set. -/

namespace TQDBProxy.MySqlWire

structure Frame where
  seq : UInt8
  payload : List UInt8
  deriving DecidableEq

def header (length : Nat) (seq : UInt8) : List UInt8 :=
  [UInt8.ofNat length, UInt8.ofNat (length / 256), UInt8.ofNat (length / 65536), seq]

def Frame.encode (f : Frame) : List UInt8 := header f.payload.length f.seq ++ f.payload

def encodeAll (frames : List Frame) : List UInt8 := frames.flatMap Frame.encode

theorem encodeAll_cons (f : Frame) (later : List Frame) :
    encodeAll (f :: later) = f.encode ++ encodeAll later :=
  List.flatMap_cons

def readFrame : List UInt8 → Option (Frame × List UInt8)
  | l₀ :: l₁ :: l₂ :: seq :: rest =>
    let length := l₀.toNat + 256 * l₁.toNat + 65536 * l₂.toNat
    if length ≤ rest.length then some (⟨seq, rest.take length⟩, rest.drop length) else none
  | _ => none

def Frame.Single (f : Frame) : Prop := f.payload.length < 16777215

/-- The length of the payload is written in three bytes. -/
def Frame.Fits (f : Frame) : Prop := f.payload.length < 16777216

theorem Frame.Single.fits {f : Frame} (single : f.Single) : f.Fits := Nat.lt_succ_of_lt single

theorem header_length {length : Nat} (bound : length < 16777216) :
    (UInt8.ofNat length).toNat + 256 * (UInt8.ofNat (length / 256)).toNat +
      65536 * (UInt8.ofNat (length / 65536)).toNat = length := by
  simp only [UInt8.toNat_ofNat']
  omega

theorem readFrame_encode {f : Frame} (fits : f.Fits) (rest : List UInt8) :
    readFrame (f.encode ++ rest) = some (f, rest) := by
  have length := header_length fits
  simp only [Frame.encode, header, List.cons_append, List.nil_append, readFrame, length]
  simp

theorem length_encode (f : Frame) : f.encode.length = 4 + f.payload.length := by
  simp [Frame.encode, header]
  omega

theorem readFrame_cut {f : Frame} (fits : f.Fits) {n : Nat} (short : n < f.encode.length)
    (rest : List UInt8) :
    readFrame ((f.encode ++ rest).take n) = none := by
  have length := header_length fits
  have size := length_encode f
  match n with
  | 0 | 1 | 2 | 3 => rfl
  | k + 4 =>
    have cut : ¬ f.payload.length ≤ ((f.payload ++ rest).take k).length := by
      rw [List.length_take]
      omega
    simp only [Frame.encode, header, List.cons_append, List.nil_append, List.take_succ_cons,
      readFrame, length,
      if_neg cut]

theorem length_encodeAll (frames : List Frame) : frames.length ≤ (encodeAll frames).length := by
  induction frames with
  | nil => simp
  | cons f later ih =>
    have size := length_encode f
    simp only [encodeAll, List.flatMap_cons, List.length_append, List.length_cons] at ih ⊢
    omega

theorem encodeAll_append (front back : List Frame) :
    encodeAll (front ++ back) = encodeAll front ++ encodeAll back :=
  List.flatMap_append

theorem frames_of_encodeAll {front frames : List Frame} {rest : List UInt8}
    (small : ∀ f ∈ front, f.Fits) (fits : ∀ f ∈ frames, f.Fits)
    (same : encodeAll front ++ rest = encodeAll frames) :
    ∃ back, frames = front ++ back ∧ rest = encodeAll back := by
  induction front generalizing frames with
  | nil => exact ⟨frames, rfl, same⟩
  | cons f later ih =>
    have read := readFrame_encode (small f List.mem_cons_self) (encodeAll later ++ rest)
    rw [encodeAll_cons, List.append_assoc] at same
    rw [same] at read
    cases frames with
    | nil => cases read
    | cons g others =>
      rw [encodeAll_cons, readFrame_encode (fits g List.mem_cons_self)] at read
      simp only [Option.some.injEq, Prod.mk.injEq] at read
      obtain ⟨rfl, after⟩ := read
      obtain ⟨back, rfl, rest⟩ := ih (fun h mem => small h (List.mem_cons_of_mem _ mem))
        (fun h mem => fits h (List.mem_cons_of_mem _ mem)) after.symm
      exact ⟨back, rfl, rest⟩

/-- The packets that frames carry: one that fills a frame goes on in the next one. -/
inductive Carries : List Frame → List (List UInt8) → Prop where
  | nil : Carries [] []
  | whole {f : Frame} {later : List Frame} {packets : List (List UInt8)} :
      f.Single → Carries later packets →
      Carries (f :: later) (f.payload :: packets)
  | split {f : Frame} {later : List Frame} {p : List UInt8} {packets : List (List UInt8)} :
      f.payload.length = 16777215 → Carries later (p :: packets) →
      Carries (f :: later) ((f.payload ++ p) :: packets)

namespace Carries

variable {frames front back : List Frame} {packets front' : List (List UInt8)}

theorem fits (carries : Carries frames packets) : ∀ f ∈ frames, f.Fits := by
  induction carries with
  | nil => simp
  | whole single _ ih => exact List.forall_mem_cons.mpr ⟨single.fits, ih⟩
  | split full _ ih => exact List.forall_mem_cons.mpr ⟨by rw [Frame.Fits, full]; decide, ih⟩

theorem of_single (single : ∀ f ∈ frames, f.Single) : Carries frames (frames.map (·.payload)) := by
  induction frames with
  | nil => exact .nil
  | cons f later ih =>
    exact .whole (single f List.mem_cons_self)
      (ih fun g mem => single g (List.mem_cons_of_mem _ mem))

theorem payloads (carries : Carries frames packets) (single : ∀ f ∈ frames, f.Single) :
    packets = frames.map (·.payload) := by
  induction carries with
  | nil => rfl
  | whole _ _ ih => rw [List.map_cons, ih fun g mem => single g (List.mem_cons_of_mem _ mem)]
  | @split f _ _ _ full =>
    have short : f.payload.length < 16777215 := single f List.mem_cons_self
    omega

theorem append (first : Carries front front') (carries : Carries (front ++ back) packets) :
    ∃ later, packets = front' ++ later ∧ Carries back later := by
  induction first generalizing packets with
  | nil => exact ⟨packets, rfl, carries⟩
  | whole single _ ih =>
    cases carries with
    | whole _ carries =>
      obtain ⟨later, rfl, rest⟩ := ih carries
      exact ⟨later, rfl, rest⟩
    | split full _ =>
      rw [Frame.Single, full] at single
      omega
  | split full _ ih =>
    cases carries with
    | whole single _ =>
      rw [Frame.Single, full] at single
      omega
    | split _ carries =>
      obtain ⟨later, same, rest⟩ := ih carries
      obtain ⟨rfl, rfl⟩ := List.cons.inj same
      exact ⟨later, rfl, rest⟩

theorem head {b : UInt8} {tail : List UInt8} {later : List (List UInt8)}
    (carries : Carries frames ((b :: tail) :: later)) :
    ∃ f others rest, frames = f :: others ∧ f.payload = b :: rest := by
  generalize opened : (b :: tail) :: later = packets at carries
  cases carries with
  | nil => cases opened
  | @whole f others =>
    obtain ⟨payload, -⟩ := List.cons.inj opened
    exact ⟨f, others, tail, rfl, payload.symm⟩
  | @split f others p _ full =>
    obtain ⟨payload, -⟩ := List.cons.inj opened
    cases filled : f.payload with
    | nil => simp [filled] at full
    | cons c rest =>
      rw [filled, List.cons_append] at payload
      obtain ⟨rfl, -⟩ := List.cons.inj payload
      exact ⟨f, others, rest, rfl, filled⟩

end Carries

/-- A length-encoded integer at the front of some bytes, and what follows it. -/
def lenenc : List UInt8 → Option (Nat × List UInt8)
  | [] => none
  | b :: rest =>
    if b < 251 then some (b.toNat, rest)
    else if b = 252 ∧ 2 ≤ rest.length then some (Binary.littleEndian (rest.take 2), rest.drop 2)
    else if b = 253 ∧ 3 ≤ rest.length then some (Binary.littleEndian (rest.take 3), rest.drop 3)
    else if b = 254 ∧ 8 ≤ rest.length then some (Binary.littleEndian (rest.take 8), rest.drop 8)
    else none

def littleEndianBytes : Nat → Nat → List UInt8
  | 0, _ => []
  | size + 1, n => UInt8.ofNat n :: littleEndianBytes size (n / 256)

theorem length_littleEndianBytes (size n : Nat) : (littleEndianBytes size n).length = size := by
  induction size generalizing n with
  | zero => rfl
  | succ size ih => simp [littleEndianBytes, ih]

theorem littleEndian_bytes {size n : Nat} (bound : n < 256 ^ size) :
    Binary.littleEndian (littleEndianBytes size n) = n := by
  induction size generalizing n with
  | zero =>
    obtain rfl : n = 0 := by simpa using bound
    rfl
  | succ size ih =>
    have rest : Binary.littleEndian (littleEndianBytes size (n / 256)) = n / 256 := by
      apply ih
      rw [Nat.pow_succ] at bound
      omega
    rw [littleEndianBytes, Binary.littleEndian, List.foldr_cons]
    rw [Binary.littleEndian] at rest
    rw [rest, UInt8.toNat_ofNat']
    omega

def lenencBytes (n : Nat) : List UInt8 :=
  if n < 251 then [UInt8.ofNat n]
  else if n < 65536 then 252 :: littleEndianBytes 2 n
  else if n < 16777216 then 253 :: littleEndianBytes 3 n
  else 254 :: littleEndianBytes 8 n

theorem lenenc_bytes {n : Nat} (bound : n < 18446744073709551616) (tail : List UInt8) :
    lenenc (lenencBytes n ++ tail) = some (n, tail) := by
  have wide : ∀ size, n < 256 ^ size →
      Binary.littleEndian ((littleEndianBytes size n ++ tail).take size) = n ∧
        (littleEndianBytes size n ++ tail).drop size = tail := by
    intro size fits
    have length := length_littleEndianBytes size n
    rw [List.take_left' length, List.drop_left' length]
    exact ⟨littleEndian_bytes fits, rfl⟩
  unfold lenencBytes
  split_ifs with one two three
  · have small : UInt8.ofNat n < 251 := by
      rw [UInt8.lt_iff_toNat_lt, UInt8.toNat_ofNat']
      have : (251 : UInt8).toNat = 251 := rfl
      omega
    rw [List.singleton_append, lenenc, if_pos small, UInt8.toNat_ofNat',
      Nat.mod_eq_of_lt (by omega)]
  · obtain ⟨value, rest⟩ := wide 2 (by omega)
    rw [List.cons_append, lenenc, if_neg (by decide),
      if_pos ⟨rfl, by simp [length_littleEndianBytes]⟩, value, rest]
  · obtain ⟨value, rest⟩ := wide 3 (by omega)
    rw [List.cons_append, lenenc, if_neg (by decide), if_neg (by simp),
      if_pos ⟨rfl, by simp [length_littleEndianBytes]⟩, value, rest]
  · obtain ⟨value, rest⟩ := wide 8 (by omega)
    rw [List.cons_append, lenenc, if_neg (by decide), if_neg (by simp), if_neg (by simp),
      if_pos ⟨rfl, by simp [length_littleEndianBytes]⟩, value, rest]

def lenencString (bytes : List UInt8) : Option (List UInt8) :=
  match lenenc bytes with
  | some (length, rest) => if length ≤ rest.length then some (rest.drop length) else none
  | none => none

/-- A text row is exactly that many values, each NULL or a string. -/
def textRow : Nat → List UInt8 → Bool
  | 0, bytes => bytes.isEmpty
  | columns + 1, bytes =>
    if bytes.head? = some 251 then textRow columns (bytes.drop 1)
    else
      match lenencString bytes with
      | some rest => textRow columns rest
      | none => false

inductive RowFormat where
  | text
  | binary
  deriving DecidableEq

def IsRow (format : RowFormat) (columns : Nat) (p : List UInt8) : Prop :=
  match format with
  | .text => textRow columns p = true
  | .binary => p.head? = some 0

def moreResults (status : UInt8) : Bool := status &&& 8 != 0

def IsOk (more : Bool) (p : List UInt8) : Prop :=
  ∃ rows id : Nat, ∃ counts counts' tail : List UInt8, ∃ low high : UInt8,
    p = 0 :: counts ∧ lenenc counts = some (rows, counts') ∧
      lenenc counts' = some (id, low :: high :: tail) ∧ moreResults low = more

def IsEof (more : Bool) (p : List UInt8) : Prop :=
  ∃ w₁ w₂ low high, p = [254, w₁, w₂, low, high] ∧ moreResults low = more

def IsErr (p : List UInt8) : Prop := p.head? = some 255

def IsColumnCount (columns : Nat) (p : List UInt8) : Prop :=
  lenenc p = some (columns, []) ∧ 0 < columns

/-- A column definition begins with the catalog, which is always `def`. -/
def IsColumnDefinition (p : List UInt8) : Prop := [3, 100, 101, 102] <+: p

structure IsResultSet (format : RowFormat) (count : List UInt8) (definitions : List (List UInt8))
    (eof : List UInt8) (rows : List (List UInt8)) : Prop where
  columns : IsColumnCount definitions.length count
  defined : ∀ p ∈ definitions, IsColumnDefinition p
  divided : ∃ more, IsEof more eof
  filled : ∀ p ∈ rows, IsRow format definitions.length p

inductive Response (format : RowFormat) : List (List UInt8) → Prop where
  | ok {p : List UInt8} : IsOk false p → Response format [p]
  | okMore {p : List UInt8} {rest : List (List UInt8)} : IsOk true p → Response format rest →
      Response format (p :: rest)
  | err {p : List UInt8} : IsErr p → Response format [p]
  | resultSet {count eof last : List UInt8} {definitions rows : List (List UInt8)} :
      IsResultSet format count definitions eof rows → IsEof false last ∨ IsErr last →
      Response format (count :: (definitions ++ eof :: (rows ++ [last])))
  | resultSetMore {count eof last : List UInt8} {definitions rows rest : List (List UInt8)} :
      IsResultSet format count definitions eof rows → IsEof true last → Response format rest →
      Response format (count :: (definitions ++ eof :: (rows ++ last :: rest)))

theorem lenenc_head {bytes rest : List UInt8} {n : Nat} (read : lenenc bytes = some (n, rest)) :
    ∃ b tail, bytes = b :: tail ∧ b ≠ 251 ∧ b ≠ 255 ∧ (b = 254 → 8 ≤ tail.length) := by
  cases bytes with
  | nil => cases read
  | cons b tail =>
    refine ⟨b, tail, rfl, ?_⟩
    rw [lenenc] at read
    split_ifs at read with small two three eight
    · refine ⟨?_, ?_, ?_⟩ <;> rintro rfl <;> exact absurd small (by decide)
    · obtain ⟨rfl, -⟩ := two
      exact ⟨by decide, by decide, fun same => absurd same (by decide)⟩
    · obtain ⟨rfl, -⟩ := three
      exact ⟨by decide, by decide, fun same => absurd same (by decide)⟩
    · obtain ⟨rfl, enough⟩ := eight
      exact ⟨by decide, by decide, fun _ => enough⟩

theorem textRow_head {columns : Nat} {p : List UInt8} (some : 0 < columns)
    (row : textRow columns p = true) :
    ∃ b tail, p = b :: tail ∧ b ≠ 255 ∧ (b = 254 → 9 ≤ p.length) := by
  obtain ⟨columns, rfl⟩ : ∃ k, columns = k + 1 := ⟨columns - 1, by omega⟩
  rw [textRow] at row
  split_ifs at row with null
  · cases p with
    | nil => cases null
    | cons b tail =>
      cases null
      exact ⟨251, tail, rfl, by decide, fun same => absurd same (by decide)⟩
  · split at row
    · rename_i rest read
      unfold lenencString at read
      split at read
      · rename_i length after number
        obtain ⟨b, tail, rfl, -, err, eof⟩ := lenenc_head number
        refine ⟨b, tail, rfl, err, fun same => ?_⟩
        have enough := eof same
        simp only [List.length_cons]
        omega
      · cases read
    · cases row

end TQDBProxy.MySqlWire
