import TQDBProxy.Utf8Encoding

/-! `ToUpper` on the runes of a string: it encodes the upper-case runes, in their
order, whether the string is ASCII or not. A string whose upper case is ASCII and
as long as itself is ASCII. -/

namespace TQDBProxy

namespace Utf8

theorem runes_induction {P : GoString → List Nat → Prop} (nil : P [] [])
    (ill : ∀ a rest, P rest (runes rest) → P (a :: rest) (runeError :: runes rest))
    (rune : ∀ r tail, Scalar r → P tail (runes tail) → P (encodeRune r ++ tail) (r :: runes tail))
    (s : GoString) : P s (runes s) := by
  induction length : s.length using Nat.strongRecOn generalizing s with
  | ind n ih =>
    cases s with
    | nil => exact nil
    | cons a rest =>
      rcases decodeRune_cases a rest with bad | ⟨e, r, tail, bytes, eq⟩
      · have read : runes (a :: rest) = runeError :: runes rest := by
          simp [runes, runesFrom, bad]
        rw [read]
        exact ill a rest (ih rest.length (by rw [← length, List.length_cons]; omega) rest rfl)
      · obtain ⟨scalar, rfl⟩ := bytes.encoded
        obtain ⟨b, more, first, -, -⟩ := encodeRune_cons scalar
        rw [eq, runes_encodeRune_append scalar]
        refine rune r tail scalar (ih tail.length ?_ tail rfl)
        rw [← length, eq, first]
        simp only [List.cons_append, List.length_cons, List.length_append]
        omega

theorem scalar_runeError : Scalar runeError := by decide

theorem scalar_runes (s : GoString) : ∀ r ∈ runes s, Scalar r := by
  refine runes_induction (P := fun _ rs => ∀ r ∈ rs, Scalar r) (by simp) ?_ ?_ s
  · intro _ _ tail
    simpa using ⟨scalar_runeError, tail⟩
  · intro _ _ scalar tail
    simpa using ⟨scalar, tail⟩

theorem runes_length_le (s : GoString) : (runes s).length ≤ s.length := by
  refine runes_induction (P := fun s rs => rs.length ≤ s.length) (by simp) ?_ ?_ s
  · intro _ _ tail
    simpa using tail
  · intro r _ scalar tail
    obtain ⟨b, more, first, -, -⟩ := encodeRune_cons scalar
    rw [first]
    simp
    omega

theorem ascii_of_runes_length (s : GoString) (full : (runes s).length = s.length)
    (formed : ∀ r ∈ runes s, r ≠ runeError) : ∀ b ∈ s, b.toNat < 0x80 := by
  revert full formed
  refine runes_induction (P := fun s rs => rs.length = s.length → (∀ r ∈ rs, r ≠ runeError) →
    ∀ b ∈ s, b.toNat < 0x80) (by simp) ?_ ?_ s
  · intro a rest _ _ formed
    exact absurd rfl (formed runeError (by simp))
  · intro r tail scalar ih full formed
    have shorter := runes_length_le tail
    have bytes := bytes_encodeRune scalar
    generalize encodeRune r = e at bytes full ⊢
    cases bytes with
    | one lead =>
      simp only [List.cons_append, List.nil_append, List.forall_mem_cons]
      exact ⟨lead, ih (by simpa using full) fun r' mem => formed r' (by simp [mem])⟩
    | two | three | four =>
      simp only [List.length_cons, List.length_append, List.length_nil] at full
      omega

theorem encode_injective {rs ss : List Nat} (scalars : ∀ r ∈ rs, Scalar r)
    (scalars' : ∀ r ∈ ss, Scalar r) (eq : encode rs = encode ss) : rs = ss := by
  rw [← runes_encode scalars, ← runes_encode scalars', eq]

theorem encodeRune_ascii {r : Nat} (ascii : r < 0x80) : encodeRune r = [UInt8.ofNat r] := by
  simp [encodeRune, ascii]

theorem encode_ascii (s : GoString) (ascii : ∀ b ∈ s, b.toNat < 0x80) :
    encode (s.map UInt8.toNat) = s := by
  induction s with
  | nil => rfl
  | cons b s ih =>
    rw [List.map_cons, encode_cons, encodeRune_ascii (ascii b (by simp)),
      ih fun c mem => ascii c (by simp [mem]), UInt8.ofNat_toNat]
    rfl

theorem runes_ascii (s : GoString) (ascii : ∀ b ∈ s, b.toNat < 0x80) :
    runes s = s.map UInt8.toNat := by
  have scalars : ∀ r ∈ s.map UInt8.toNat, Scalar r := by
    intro r mem
    obtain ⟨b, found, rfl⟩ := List.mem_map.mp mem
    have small := ascii b found
    exact .inl (by omega)
  rw [← runes_encode scalars, encode_ascii s ascii]

end Utf8

namespace Unicode

open Utf8

def scalarImages (run : Nat × Nat × Nat × Nat) : Bool :=
  let (first, last, _, image) := run
  image + (last - first) < 0xD800 || 0xE000 ≤ image && image + (last - first) ≤ 0x10FFFF

theorem upperRuns_scalar : upperRuns.all scalarImages = true := by decide +kernel

theorem scalar_toUpper {r : Nat} (scalar : Scalar r) : Scalar (toUpper r) := by
  unfold toUpper
  split
  · left
    split <;> omega
  · split
    · rename_i first last stride image found
      have mem := List.mem_of_find?_eq_some found
      have inside := List.find?_some found
      simp only [Bool.and_eq_true, decide_eq_true_eq] at inside
      have limits := List.all_eq_true.mp upperRuns_scalar _ mem
      simp only [scalarImages, Bool.or_eq_true, Bool.and_eq_true, decide_eq_true_eq] at limits
      unfold Scalar
      omega
    · exact scalar

theorem toNat_upperByte {b : UInt8} (ascii : b.toNat < 0x80) :
    (Strings.upperByte b).toNat = toUpper b.toNat := by
  simp only [Strings.upperByte, toUpper, ascii, if_true, Bool.and_eq_true, decide_eq_true_eq,
    UInt8.le_iff_toNat_le, UInt8.reduceToNat]
  split
  · rename_i lower
    have large : (32 : UInt8) ≤ b := UInt8.le_iff_toNat_le.mpr (by simp; omega)
    rw [UInt8.toNat_sub_of_le _ _ large]
    rfl
  · rfl

theorem toUpper_ascii {r : Nat} (ascii : r < 0x80) : toUpper r < 0x80 := by
  simp only [toUpper, ascii, if_true]
  split <;> omega

end Unicode

namespace Strings

open Utf8

theorem isAscii_iff {s : GoString} : isAscii s = true ↔ ∀ b ∈ s, b.toNat < 0x80 := by
  simp [isAscii, UInt8.lt_iff_toNat_lt]

theorem toUpper_eq (s : GoString) : toUpper s = encode ((runes s).map Unicode.toUpper) := by
  unfold toUpper
  split
  · rename_i ascii
    have small := isAscii_iff.mp ascii
    have upper : ∀ b ∈ s.map upperByte, b.toNat < 0x80 := by
      intro b mem
      obtain ⟨c, found, rfl⟩ := List.mem_map.mp mem
      rw [Unicode.toNat_upperByte (small c found)]
      exact Unicode.toUpper_ascii (small c found)
    rw [runes_ascii s small, ← encode_ascii _ upper, List.map_map, List.map_map]
    congr 1
    exact List.map_congr_left fun b mem => Unicode.toNat_upperByte (small b mem)
  · rw [encode, List.flatMap_map]

theorem toUpper_encode {rs : List Nat} (scalars : ∀ r ∈ rs, Scalar r) :
    toUpper (encode rs) = encode (rs.map Unicode.toUpper) := by
  rw [toUpper_eq, runes_encode scalars]

theorem scalar_upper {rs : List Nat} (scalars : ∀ r ∈ rs, Scalar r) :
    ∀ r ∈ rs.map Unicode.toUpper, Scalar r := by
  intro r mem
  obtain ⟨r', found, rfl⟩ := List.mem_map.mp mem
  exact Unicode.scalar_toUpper (scalars r' found)

theorem ascii_of_toUpper {s word : GoString} (upper : toUpper s = word)
    (ascii : ∀ b ∈ word, b.toNat < 0x80) (length : s.length = word.length) :
    ∀ b ∈ s, b.toNat < 0x80 := by
  have scalars := scalar_upper (scalar_runes s)
  rw [toUpper_eq] at upper
  have same : (runes s).map Unicode.toUpper = word.map UInt8.toNat := by
    rw [← runes_encode scalars, upper, runes_ascii word ascii]
  have full : (runes s).length = s.length := by
    have lengths := congrArg List.length same
    rw [List.length_map, List.length_map] at lengths
    omega
  refine ascii_of_runes_length s full ?_
  rintro r mem rfl
  -- the upper case of U+FFFD is not ASCII
  have image : Unicode.toUpper runeError ∈ word.map UInt8.toNat :=
    same ▸ List.mem_map_of_mem mem
  obtain ⟨b, found, eq⟩ := List.mem_map.mp image
  have small := ascii b found
  rw [eq] at small
  exact absurd small (by decide +kernel)

end Strings

end TQDBProxy
