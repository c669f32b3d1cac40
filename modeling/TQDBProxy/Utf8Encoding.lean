import TQDBProxy.GoStringLemmas

/-! Well-formed UTF-8. `ValidString` accepts exactly the encodings of lists of
scalar values, decoding gives those values back, and a piece of a well-formed
string is well formed when the cut is before the first byte of a rune. -/

namespace TQDBProxy

namespace Utf8

def Scalar (r : Nat) : Prop := r < 0xD800 ∨ 0xE000 ≤ r ∧ r ≤ 0x10FFFF

instance (r : Nat) : Decidable (Scalar r) := inferInstanceAs (Decidable (_ ∨ _))

def encode (rs : List Nat) : GoString := rs.flatMap encodeRune

def validFrom (skip : Nat) : GoString → Bool
  | [] => true
  | b :: rest =>
    match skip with
    | 0 =>
      let decoded := decodeRune (b :: rest)
      decoded != (runeError, 1) && validFrom (decoded.2 - 1) rest
    | skip + 1 => validFrom skip rest

/-- `utf8.ValidString`. -/
def valid (s : GoString) : Bool := validFrom 0 s

/-- `utf8.RuneStart`. -/
def runeStart (b : UInt8) : Bool := !continues 0x80 0xBF b

@[simp] theorem encode_nil : encode [] = [] := rfl

@[simp] theorem encode_cons (r : Nat) (rs : List Nat) :
    encode (r :: rs) = encodeRune r ++ encode rs := rfl

@[simp] theorem encode_append (rs ss : List Nat) : encode (rs ++ ss) = encode rs ++ encode ss :=
  List.flatMap_append

/-! The byte sequences of the runes -/

abbrev Within (lo hi : Nat) (b : UInt8) : Prop := lo ≤ b.toNat ∧ b.toNat ≤ hi

/-- The bytes of a rune; the second byte of a longer one rules out the overlong
forms, the surrogates and the values past the last code point. -/
inductive Bytes : GoString → Nat → Prop
  | one {a : UInt8} (lead : a.toNat < 0x80) : Bytes [a] a.toNat
  | two {a b : UInt8} (lead : Within 0xC2 0xDF a) (second : Within 0x80 0xBF b) :
    Bytes [a, b] ((a.toNat - 0xC0) * 64 + (b.toNat - 0x80))
  | three {a b c : UInt8} (lead : Within 0xE0 0xEF a)
    (second : Within (if a.toNat = 0xE0 then 0xA0 else 0x80)
      (if a.toNat = 0xED then 0x9F else 0xBF) b)
    (third : Within 0x80 0xBF c) :
    Bytes [a, b, c] ((a.toNat - 0xE0) * 4096 + (b.toNat - 0x80) * 64 + (c.toNat - 0x80))
  | four {a b c d : UInt8} (lead : Within 0xF0 0xF4 a)
    (second : Within (if a.toNat = 0xF0 then 0x90 else 0x80)
      (if a.toNat = 0xF4 then 0x8F else 0xBF) b)
    (third : Within 0x80 0xBF c) (fourth : Within 0x80 0xBF d) :
    Bytes [a, b, c, d] ((a.toNat - 0xF0) * 262144 + (b.toNat - 0x80) * 4096
      + (c.toNat - 0x80) * 64 + (d.toNat - 0x80))

theorem Bytes.decodeRune {e : GoString} {r : Nat} (bytes : Bytes e r) (rest : GoString) :
    decodeRune (e ++ rest) = (r, e.length) := by
  cases bytes with
  | one lead => simp [Utf8.decodeRune, lead]
  | @two a b lead second =>
    obtain ⟨low, high⟩ := lead
    have long : 0x80 ≤ a.toNat := by omega
    simp [Utf8.decodeRune, continues, low, high, long, second]
  | @three a b c lead second third =>
    obtain ⟨low, high⟩ := lead
    have long : ¬ a.toNat < 0x80 := by omega
    have longer : ¬ a.toNat ≤ 0xDF := by omega
    simp [Utf8.decodeRune, continues, low, high, long, longer, second, third]
  | @four a b c d lead second third fourth =>
    obtain ⟨low, high⟩ := lead
    have long : ¬ a.toNat < 0x80 := by omega
    have longer : ¬ a.toNat ≤ 0xDF := by omega
    have longest : ¬ a.toNat ≤ 0xEF := by omega
    simp [Utf8.decodeRune, continues, low, high, long, longer, longest, second, third, fourth]

theorem decodeRune_cases (a : UInt8) (rest : GoString) :
    decodeRune (a :: rest) = (runeError, 1) ∨
      ∃ e r tail, Bytes e r ∧ a :: rest = e ++ tail := by
  simp only [decodeRune, continues, Bool.and_eq_true, decide_eq_true_eq]
  split
  · rename_i lead
    exact .inr ⟨[a], _, rest, .one lead, rfl⟩
  · split
    · rename_i lead
      split
      · rename_i b tail
        split
        · rename_i second
          exact .inr ⟨[a, b], _, tail, .two lead second, rfl⟩
        · exact .inl rfl
      · exact .inl rfl
    · split
      · rename_i lead
        split
        · rename_i b c tail
          by_cases inside : Within (if a.toNat = 0xE0 then 0xA0 else 0x80)
              (if a.toNat = 0xED then 0x9F else 0xBF) b ∧ Within 0x80 0xBF c
          · exact .inr ⟨[a, b, c], _, tail, .three lead inside.1 inside.2, rfl⟩
          · exact .inl (if_neg inside)
        · exact .inl rfl
      · split
        · rename_i lead
          split
          · rename_i b c d tail
            by_cases inside : (Within (if a.toNat = 0xF0 then 0x90 else 0x80)
                (if a.toNat = 0xF4 then 0x8F else 0xBF) b ∧ Within 0x80 0xBF c) ∧
                Within 0x80 0xBF d
            · exact .inr ⟨[a, b, c, d], _, tail, .four lead inside.1.1 inside.1.2 inside.2, rfl⟩
            · exact .inl (if_neg inside)
          · exact .inl rfl
        · exact .inl rfl

theorem toNat_ofNat {n : Nat} (small : n < 256) : (UInt8.ofNat n).toNat = n :=
  UInt8.toNat_ofNat_of_lt' small

theorem bytes_encodeRune {r : Nat} (scalar : Scalar r) : Bytes (encodeRune r) r := by
  unfold Scalar at scalar
  by_cases one : r < 0x80
  · have lead : (UInt8.ofNat r).toNat = r := toNat_ofNat (by omega)
    have bytes := Bytes.one (a := UInt8.ofNat r) (by omega)
    simpa [encodeRune, one, lead] using bytes
  by_cases two : r < 0x800
  · have lead : (UInt8.ofNat (0xC0 + r / 64)).toNat = 0xC0 + r / 64 := toNat_ofNat (by omega)
    have last : (UInt8.ofNat (0x80 + r % 64)).toNat = 0x80 + r % 64 := toNat_ofNat (by omega)
    have bytes := Bytes.two (a := UInt8.ofNat (0xC0 + r / 64)) (b := UInt8.ofNat (0x80 + r % 64))
      (by omega) (by omega)
    rw [lead, last, show (0xC0 + r / 64 - 0xC0) * 64 + (0x80 + r % 64 - 0x80) = r by omega] at bytes
    simpa [encodeRune, one, two] using bytes
  have second : (UInt8.ofNat (0x80 + r / 64 % 64)).toNat = 0x80 + r / 64 % 64 :=
    toNat_ofNat (by omega)
  have last : (UInt8.ofNat (0x80 + r % 64)).toNat = 0x80 + r % 64 := toNat_ofNat (by omega)
  by_cases three : r < 0x10000
  · have lead : (UInt8.ofNat (0xE0 + r / 4096)).toNat = 0xE0 + r / 4096 := toNat_ofNat (by omega)
    have bytes := Bytes.three (a := UInt8.ofNat (0xE0 + r / 4096))
      (b := UInt8.ofNat (0x80 + r / 64 % 64)) (c := UInt8.ofNat (0x80 + r % 64))
      (by omega) (by rw [lead, Within, second]; split <;> split <;> omega) (by omega)
    rw [lead, second, last, show (0xE0 + r / 4096 - 0xE0) * 4096 + (0x80 + r / 64 % 64 - 0x80) * 64
      + (0x80 + r % 64 - 0x80) = r by omega] at bytes
    simpa [encodeRune, one, two, three] using bytes
  · have lead : (UInt8.ofNat (0xF0 + r / 262144)).toNat = 0xF0 + r / 262144 :=
      toNat_ofNat (by omega)
    have next : (UInt8.ofNat (0x80 + r / 4096 % 64)).toNat = 0x80 + r / 4096 % 64 :=
      toNat_ofNat (by omega)
    have bytes := Bytes.four (a := UInt8.ofNat (0xF0 + r / 262144))
      (b := UInt8.ofNat (0x80 + r / 4096 % 64)) (c := UInt8.ofNat (0x80 + r / 64 % 64))
      (d := UInt8.ofNat (0x80 + r % 64))
      (by omega) (by rw [lead, Within, next]; split <;> split <;> omega) (by omega) (by omega)
    rw [lead, next, second, last, show (0xF0 + r / 262144 - 0xF0) * 262144
      + (0x80 + r / 4096 % 64 - 0x80) * 4096 + (0x80 + r / 64 % 64 - 0x80) * 64
      + (0x80 + r % 64 - 0x80) = r by omega] at bytes
    simpa [encodeRune, one, two, three] using bytes

theorem ofNat_eq {n : Nat} {b : UInt8} (eq : n = b.toNat) : UInt8.ofNat n = b := by
  rw [eq, UInt8.ofNat_toNat]

theorem Bytes.encoded {e : GoString} {r : Nat} (bytes : Bytes e r) :
    Scalar r ∧ e = encodeRune r := by
  cases bytes with
  | @one a lead =>
    refine ⟨.inl (by omega), ?_⟩
    simp [encodeRune, lead]
  | @two a b lead second =>
    generalize value : (a.toNat - 0xC0) * 64 + (b.toNat - 0x80) = r
    have one : ¬ r < 0x80 := by omega
    have two : r < 0x800 := by omega
    refine ⟨.inl (by omega), ?_⟩
    rw [encodeRune, if_neg one, if_pos two, ofNat_eq (b := a) (by omega),
      ofNat_eq (b := b) (by omega)]
  | @three a b c lead second third =>
    have low : 0x80 ≤ b.toNat ∧ (a.toNat = 0xE0 → 0xA0 ≤ b.toNat) := by
      have := second.1
      split at this <;> omega
    have high : b.toNat ≤ 0xBF ∧ (a.toNat = 0xED → b.toNat ≤ 0x9F) := by
      have := second.2
      split at this <;> omega
    generalize value : (a.toNat - 0xE0) * 4096 + (b.toNat - 0x80) * 64 + (c.toNat - 0x80) = r
    have one : ¬ r < 0x80 := by omega
    have two : ¬ r < 0x800 := by omega
    have three : r < 0x10000 := by omega
    refine ⟨by unfold Scalar; omega, ?_⟩
    rw [encodeRune, if_neg one, if_neg two, if_pos three, ofNat_eq (b := a) (by omega),
      ofNat_eq (b := b) (by omega), ofNat_eq (b := c) (by omega)]
  | @four a b c d lead second third fourth =>
    have low : 0x80 ≤ b.toNat ∧ (a.toNat = 0xF0 → 0x90 ≤ b.toNat) := by
      have := second.1
      split at this <;> omega
    have high : b.toNat ≤ 0xBF ∧ (a.toNat = 0xF4 → b.toNat ≤ 0x8F) := by
      have := second.2
      split at this <;> omega
    generalize value : (a.toNat - 0xF0) * 262144 + (b.toNat - 0x80) * 4096
      + (c.toNat - 0x80) * 64 + (d.toNat - 0x80) = r
    have one : ¬ r < 0x80 := by omega
    have two : ¬ r < 0x800 := by omega
    have three : ¬ r < 0x10000 := by omega
    refine ⟨by unfold Scalar; omega, ?_⟩
    rw [encodeRune, if_neg one, if_neg two, if_neg three, ofNat_eq (b := a) (by omega),
      ofNat_eq (b := b) (by omega), ofNat_eq (b := c) (by omega), ofNat_eq (b := d) (by omega)]

/-! Strings of runes -/

theorem decodeRune_encodeRune {r : Nat} (scalar : Scalar r) (rest : GoString) :
    decodeRune (encodeRune r ++ rest) = (r, (encodeRune r).length) :=
  (bytes_encodeRune scalar).decodeRune rest

theorem encodeRune_cons {r : Nat} (scalar : Scalar r) :
    ∃ a more, encodeRune r = a :: more ∧ runeStart a = true ∧
      ∀ b ∈ more, runeStart b = false := by
  have bytes := bytes_encodeRune scalar
  generalize encodeRune r = e at bytes
  cases bytes with
  | @one a lead =>
    exact ⟨a, [], rfl, by simp [runeStart, continues]; omega, by simp⟩
  | @two a b lead second =>
    refine ⟨a, [b], rfl, by simp [runeStart, continues]; omega, ?_⟩
    simpa [runeStart, continues] using second
  | @three a b c lead second third =>
    refine ⟨a, [b, c], rfl, by simp [runeStart, continues]; omega, ?_⟩
    simp [runeStart, continues, third]
    grind
  | @four a b c d lead second third fourth =>
    refine ⟨a, [b, c, d], rfl, by simp [runeStart, continues]; omega, ?_⟩
    simp [runeStart, continues, third, fourth]
    grind

theorem runesFrom_skip (u t : GoString) : runesFrom u.length (u ++ t) = runesFrom 0 t := by
  induction u with
  | nil => rfl
  | cons b u ih => exact ih

theorem validFrom_skip (u t : GoString) : validFrom u.length (u ++ t) = validFrom 0 t := by
  induction u with
  | nil => rfl
  | cons b u ih => exact ih

theorem runes_encodeRune_append {r : Nat} (scalar : Scalar r) (t : GoString) :
    runes (encodeRune r ++ t) = r :: runes t := by
  have decoded := decodeRune_encodeRune scalar t
  obtain ⟨a, more, eq, -, -⟩ := encodeRune_cons scalar
  rw [eq] at decoded ⊢
  rw [List.cons_append] at decoded ⊢
  simp only [runes, runesFrom, decoded, List.length_cons, Nat.add_sub_cancel, runesFrom_skip]

theorem valid_encodeRune_append {r : Nat} (scalar : Scalar r) (t : GoString) :
    valid (encodeRune r ++ t) = valid t := by
  have decoded := decodeRune_encodeRune scalar t
  have wide : (r, (encodeRune r).length) ≠ (runeError, 1) := by
    intro eq
    obtain ⟨rfl, width⟩ := Prod.mk.inj eq
    revert width
    decide
  obtain ⟨a, more, eq, -, -⟩ := encodeRune_cons scalar
  rw [eq] at decoded wide ⊢
  rw [List.cons_append] at decoded ⊢
  rw [← decoded] at wide
  simp only [valid, validFrom, bne_iff_ne.mpr wide, Bool.true_and]
  simp only [decoded, List.length_cons, Nat.add_sub_cancel, validFrom_skip]

theorem runes_encode {rs : List Nat} (scalars : ∀ r ∈ rs, Scalar r) : runes (encode rs) = rs := by
  induction rs with
  | nil => rfl
  | cons r rs ih =>
    rw [encode_cons, runes_encodeRune_append (scalars r (by simp)),
      ih fun r' mem => scalars r' (by simp [mem])]

theorem valid_encode_append {rs : List Nat} (scalars : ∀ r ∈ rs, Scalar r) (t : GoString) :
    valid (encode rs ++ t) = valid t := by
  induction rs with
  | nil => rfl
  | cons r rs ih =>
    rw [encode_cons, List.append_assoc, valid_encodeRune_append (scalars r (by simp)),
      ih fun r' mem => scalars r' (by simp [mem])]

theorem valid_iff {s : GoString} :
    valid s = true ↔ ∃ rs, (∀ r ∈ rs, Scalar r) ∧ s = encode rs := by
  constructor
  · -- each decoded rune shortens the string
    induction length : s.length using Nat.strongRecOn generalizing s with
    | ind n ih =>
      intro wellFormed
      cases s with
      | nil => exact ⟨[], by simp, rfl⟩
      | cons a rest =>
        rcases decodeRune_cases a rest with ill | ⟨e, r, tail, bytes, eq⟩
        · simp [valid, validFrom, ill] at wellFormed
        · obtain ⟨scalar, rfl⟩ := bytes.encoded
          rw [eq, valid_encodeRune_append scalar] at wellFormed
          obtain ⟨a', more, first, -, -⟩ := encodeRune_cons scalar
          have shorter : tail.length < n := by
            rw [← length, eq, first]
            simp only [List.cons_append, List.length_cons, List.length_append]
            omega
          obtain ⟨rs, scalars, rfl⟩ := ih tail.length shorter rfl wellFormed
          refine ⟨r :: rs, ?_, eq⟩
          simpa using ⟨scalar, scalars⟩
  · rintro ⟨rs, scalars, rfl⟩
    simpa [valid, validFrom] using valid_encode_append scalars []

theorem valid_append {u v : GoString} (first : valid u = true) : valid (u ++ v) = valid v := by
  obtain ⟨rs, scalars, rfl⟩ := valid_iff.mp first
  exact valid_encode_append scalars v

/-! Cutting a string -/

theorem valid_take_rune {r n : Nat} (scalar : Scalar r) (some : 0 < n)
    (part : n < (encodeRune r).length) : valid ((encodeRune r).take n) = false := by
  by_contra wellFormed
  rw [Bool.not_eq_false] at wellFormed
  obtain ⟨rs, scalars, eq⟩ := valid_iff.mp wellFormed
  cases rs with
  | nil =>
    have length := congrArg List.length eq
    rw [List.length_take, encode_nil, List.length_nil] at length
    omega
  | cons r' rs =>
    -- the first rune of the piece is the first rune of the whole
    have whole : encodeRune r = encodeRune r' ++ (encode rs ++ (encodeRune r).drop n) := by
      rw [← List.append_assoc, ← encode_cons, ← eq, List.take_append_drop]
    have same := decodeRune_encodeRune (scalars r' (by simp)) (encode rs ++ (encodeRune r).drop n)
    rw [← whole, ← List.append_nil (encodeRune r), decodeRune_encodeRune scalar] at same
    obtain ⟨-, width⟩ := Prod.mk.inj same
    have total := congrArg List.length whole
    simp only [List.length_append, List.length_drop] at total
    omega

/-- A piece of a well-formed string is well formed exactly when the next byte,
if there is one, starts a rune. -/
theorem valid_take_iff {s : GoString} (wellFormed : valid s = true) (n : Nat) :
    valid (s.take n) = true ↔ ∀ b, s[n]? = some b → runeStart b = true := by
  obtain ⟨rs, scalars, rfl⟩ := valid_iff.mp wellFormed
  clear wellFormed
  induction rs generalizing n with
  | nil => simp [valid, validFrom]
  | cons r rs ih =>
    have scalar := scalars r (by simp)
    by_cases past : (encodeRune r).length ≤ n
    · rw [encode_cons, List.take_append, List.take_of_length_le past,
        valid_encodeRune_append scalar, List.getElem?_append_right past]
      exact ih _ fun r' mem => scalars r' (by simp [mem])
    · have inside : n < (encodeRune r).length := by omega
      rw [encode_cons, List.take_append_of_le_length (Nat.le_of_lt inside),
        List.getElem?_append_left inside]
      obtain ⟨a, more, eq, start, continuing⟩ := encodeRune_cons scalar
      cases n with
      | zero => simp [valid, validFrom, eq, start]
      | succ n =>
        have ill := valid_take_rune scalar n.succ_pos inside
        rw [ill, eq]
        rw [eq] at inside
        have next : n < more.length := by simpa using inside
        simp [next, continuing _ (List.getElem_mem next)]

theorem valid_append_iff {u v : GoString} {b : UInt8} (start : runeStart b = true)
    (second : valid (b :: v) = true) : valid (u ++ b :: v) = true ↔ valid u = true := by
  constructor
  · intro both
    have cut := (valid_take_iff both u.length).mpr
    simp only [List.take_left] at cut
    apply cut
    intro b' found
    have eq : b = b' := by simpa using found
    exact eq ▸ start
  · intro first
    rw [valid_append first]
    exact second

theorem runeStart_ascii {c : UInt8} (ascii : c.toNat < 0x80) : runeStart c = true := by
  simp [runeStart, continues]
  omega

theorem valid_cut {s rest : GoString} {c : UInt8} {i : Nat} (wellFormed : valid s = true)
    (after : s.drop i = c :: rest) (start : runeStart c = true) :
    i < s.length ∧ valid (s.take i) = true ∧ valid (s.drop i) = true := by
  have next : s[i]? = some c := by
    have head := congrArg List.head? after
    simpa using head
  have front : valid (s.take i) = true := by
    refine (valid_take_iff wellFormed i).mpr ?_
    intro b found
    rw [next] at found
    cases found
    exact start
  refine ⟨(List.getElem?_eq_some_iff.mp next).1, front, ?_⟩
  rwa [← List.take_append_drop i s, valid_append front] at wellFormed

theorem valid_of_append {u v : GoString} (both : valid (u ++ v) = true) (second : valid v = true) :
    valid u = true := by
  cases v with
  | nil => simpa using both
  | cons b v =>
    obtain ⟨rs, scalars, eq⟩ := valid_iff.mp second
    cases rs with
    | nil => cases eq
    | cons r rs =>
      obtain ⟨a, more, first, start, -⟩ := encodeRune_cons (scalars r (by simp))
      rw [encode_cons, first] at eq
      obtain ⟨rfl, -⟩ := List.cons.inj eq
      exact (valid_append_iff start second).mp both

theorem valid_flatten {parts : List GoString} (pieces : ∀ p ∈ parts, valid p = true) :
    valid parts.flatten = true := by
  induction parts with
  | nil => rfl
  | cons p parts ih =>
    rw [List.flatten_cons, valid_append (pieces p (by simp))]
    exact ih fun p' mem => pieces p' (by simp [mem])

end Utf8

namespace Strings

open Utf8

theorem spaces_valid : Unicode.spaces.all valid = true := by decide +kernel

/-- What `TrimSpace` removes is well formed. -/
theorem trimSpace_valid (s : GoString) :
    ∃ u w, s = u ++ trimSpace s ++ w ∧ valid u = true ∧ valid w = true := by
  obtain ⟨u, left, parts, spaces, rfl⟩ := dropPieces_split Unicode.spaces s.length s
  have blank : valid parts.flatten = true :=
    valid_flatten fun p mem => List.all_eq_true.mp spaces_valid p (spaces p mem)
  obtain ⟨w, right, parts', spaces', flat⟩ := trimRight_split (trimLeft s)
  have tail : w = (parts'.reverse.map List.reverse).flatten := by
    rw [← List.reverse_reverse w, ← flat, List.reverse_flatten, List.map_reverse]
  have blank' : valid w = true := by
    rw [tail]
    refine valid_flatten fun p mem => ?_
    obtain ⟨q, part, rfl⟩ := List.mem_map.mp mem
    obtain ⟨space, listed, rfl⟩ := List.mem_map.mp (spaces' q (List.mem_reverse.mp part))
    rw [List.reverse_reverse]
    exact List.all_eq_true.mp spaces_valid space listed
  refine ⟨parts.flatten, w, ?_, blank, blank'⟩
  calc s = parts.flatten ++ trimLeft s := left
    _ = parts.flatten ++ (trimSpace s ++ w) := congrArg (parts.flatten ++ ·) right
    _ = parts.flatten ++ trimSpace s ++ w := (List.append_assoc ..).symm

theorem valid_trimSpace_iff (s : GoString) : valid (trimSpace s) = true ↔ valid s = true := by
  obtain ⟨u, w, eq, front, back⟩ := trimSpace_valid s
  constructor
  · intro trimmed
    rwa [eq, List.append_assoc, valid_append front, valid_append trimmed]
  · intro wellFormed
    rw [eq, List.append_assoc, valid_append front] at wellFormed
    exact valid_of_append wellFormed back

theorem valid_trimSpace {s : GoString} (wellFormed : valid s = true) : valid (trimSpace s) = true :=
  (valid_trimSpace_iff s).mpr wellFormed

end Strings

end TQDBProxy
