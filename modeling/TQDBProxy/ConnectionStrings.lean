import Mathlib.Data.List.Perm.Subperm
import Mathlib.Data.List.TakeDrop

/-! Strings of settings `key=value` with blanks between them; a value stands as it is, up
to the next blank, or in single quotes, and a backslash takes the character after it. The
settings are all read back exactly when every value is plain: the reader needs all
characters of the string for them, so none is left for quotes and backslashes.
Characters are numbers, and `space` tells the blanks. -/

namespace TQDBProxy.ConnectionStrings

abbrev Setting := List Nat × List Nat

/-- The characters up to the one at which to stop; whether a text may end without it. -/
def readUntil (stop : Nat → Bool) (mayEnd : Bool) : List Nat → Option (List Nat × List Nat)
  | [] => if mayEnd then some ([], []) else none
  | r :: rest =>
    if stop r then some ([], rest)
    else if r = 92 then
      match rest with
      | [] => none
      | c :: rest => (readUntil stop mayEnd rest).map fun x => (c :: x.1, x.2)
    else (readUntil stop mayEnd rest).map fun x => (r :: x.1, x.2)

def readQuoted : List Nat → Option (List Nat × List Nat) := readUntil (· == 39) false

section Reading

variable (space : Nat → Bool)

def readPlain : List Nat → Option (List Nat × List Nat) := readUntil space true

def readValue (text : List Nat) : Option (List Nat × List Nat) :=
  match text.dropWhile space with
  | [] => some ([], [])
  | r :: rest => if r = 39 then readQuoted rest else readPlain space (r :: rest)

def endsKey (r : Nat) : Bool := space r || r == 61

/-- A setting and what follows it. Blanks may stand on both sides of the equals sign. -/
def readSetting (text : List Nat) : Option (Setting × List Nat) :=
  match (text.dropWhile (!endsKey space ·)).dropWhile space with
  | [] => none
  | r :: rest =>
    if r = 61 then
      (readValue space rest).map fun x => ((text.takeWhile (!endsKey space ·), x.1), x.2)
    else none

def readSettings : Nat → List Nat → Option (List Setting)
  | 0, _ => none
  | rounds + 1, text =>
    match text.dropWhile space with
    | [] => some []
    | r :: rest => (readSetting space (r :: rest)).bind fun x =>
      (readSettings rounds x.2).map (x.1 :: ·)

def settingsOf (text : List Nat) : Option (List Setting) :=
  readSettings space (text.length + 1) text

structure IsKey (key : List Nat) : Prop where
  some : key ≠ []
  plain : ∀ r ∈ key, endsKey space r = false

structure Plain (value : List Nat) : Prop where
  some : value ≠ []
  unquoted : value.head? ≠ .some 39
  plain : ∀ r ∈ value, space r = false ∧ r ≠ 92

end Reading

section Writing

variable {α : Type} [OfNat α 32] [OfNat α 61]

def writeSetting (s : List α × List α) : List α := s.1 ++ 61 :: s.2

def line (settings : List (List α × List α)) (last : List α × List α) : List α :=
  settings.flatMap (fun s => writeSetting s ++ [32]) ++ writeSetting last

theorem line_cons (s : List α × List α) (settings : List (List α × List α))
    (last : List α × List α) :
    line (s :: settings) last = s.1 ++ 61 :: (s.2 ++ 32 :: line settings last) := by
  simp [line, writeSetting]

theorem mem_line {settings : List (List α × List α)} {last : List α × List α} {r : α}
    (mem : r ∈ line settings last) :
    r = 32 ∨ r = 61 ∨ ∃ s ∈ settings ++ [last], r ∈ s.1 ∨ r ∈ s.2 := by
  induction settings with
  | nil =>
    have written : r ∈ last.1 ++ 61 :: last.2 := mem
    rw [List.mem_append, List.mem_cons] at written
    grind
  | cons s settings ih =>
    rw [line_cons, List.mem_append, List.mem_cons, List.mem_append, List.mem_cons] at mem
    grind

end Writing

def size : List Setting → Nat
  | [] => 0
  | s :: rest => s.1.length + s.2.length + 2 + size rest

/-- The characters that are left, with the blank before them. -/
def left : List Nat → Nat
  | [] => 0
  | _ :: rest => rest.length + 2

/-- What was read stands in the text, in its order and in front of what follows. -/
def Taken (text : List Nat) (x : List Nat × List Nat) : Prop :=
  ∃ used, text = used ++ x.2 ∧ x.1.Sublist used

variable {space : Nat → Bool} {text v rest : List Nat} {x : List Nat × List Nat}

theorem left_le (rest : List Nat) : left rest ≤ rest.length + 1 := by
  cases rest with
  | nil => exact Nat.zero_le _
  | cons r rest => exact Nat.le_refl _

theorem left_of_length {rest : List Nat} (some : 0 < rest.length) :
    left rest = rest.length + 1 := by
  cases rest with
  | nil => cases some
  | cons r rest => rfl

theorem length_le_left (rest : List Nat) : rest.length ≤ left rest := by
  cases rest with
  | nil => exact Nat.le_refl _
  | cons r rest => exact Nat.le_succ _

/-! ### What was read -/

theorem readValue_cases (read : readValue space text = some x) :
    x = ([], []) ∨ ∃ blanks r rest, text = blanks ++ r :: rest ∧ space r = false ∧
      (r = 39 ∧ readQuoted rest = some x ∨ r ≠ 39 ∧ readPlain space (r :: rest) = some x) := by
  have parts := (List.takeWhile_append_dropWhile (p := space) (l := text)).symm
  unfold readValue at read
  split at read
  · exact .inl (Option.some.inj read).symm
  · rename_i r rest dropped
    have stop := List.head?_dropWhile_not space text
    rw [dropped] at stop parts
    refine .inr ⟨_, r, rest, parts, by simpa using stop, ?_⟩
    split_ifs at read with quote
    · exact .inl ⟨quote, read⟩
    · exact .inr ⟨quote, read⟩

theorem readSetting_parts {s : Setting} (read : readSetting space text = some (s, rest)) :
    ∃ blanks after, text = s.1 ++ (blanks ++ 61 :: after) ∧
      readValue space after = some (s.2, rest) := by
  unfold readSetting at read
  split at read
  · cases read
  · rename_i r after dropped
    split_ifs at read with equals
    obtain ⟨x, value, same⟩ := Option.map_eq_some_iff.mp read
    obtain ⟨rfl, rfl⟩ := Prod.mk.inj same
    refine ⟨(text.dropWhile (!endsKey space ·)).takeWhile space, after, ?_, value⟩
    rw [← equals, ← dropped, List.takeWhile_append_dropWhile, List.takeWhile_append_dropWhile]

theorem readSettings_cases {rounds : Nat} {settings : List Setting}
    (read : readSettings space (rounds + 1) text = some settings) :
    settings = [] ∨ ∃ blanks after s rest others, text = blanks ++ after ∧
      readSetting space after = some (s, rest) ∧
      readSettings space rounds rest = some others ∧ settings = s :: others := by
  have parts := (List.takeWhile_append_dropWhile (p := space) (l := text)).symm
  rw [readSettings] at read
  split at read
  · exact .inl (Option.some.inj read).symm
  · rename_i r after dropped
    obtain ⟨⟨s, rest⟩, first, later⟩ := Option.bind_eq_some_iff.mp read
    obtain ⟨others, found, rfl⟩ := Option.map_eq_some_iff.mp later
    rw [dropped] at parts
    exact .inr ⟨_, _, s, rest, others, parts, first, found, rfl⟩

/-! ### What stands in the text -/

theorem Taken.skip (taken : Taken text x) (front : List Nat) : Taken (front ++ text) x := by
  obtain ⟨used, whole, sub⟩ := taken
  exact ⟨front ++ used, by rw [whole, List.append_assoc], sub.trans (List.sublist_append_right ..)⟩

theorem Taken.cons (taken : Taken text x) (r : Nat) : Taken (r :: text) (r :: x.1, x.2) := by
  obtain ⟨used, whole, sub⟩ := taken
  exact ⟨r :: used, by rw [whole, List.cons_append], sub.cons_cons r⟩

theorem Taken.mem (taken : Taken text x) {r : Nat} (mem : r ∈ x.1 ∨ r ∈ x.2) : r ∈ text := by
  obtain ⟨used, whole, sub⟩ := taken
  rw [whole, List.mem_append]
  exact mem.imp (sub.subset ·) id

theorem taken_readUntil {mayEnd : Bool} (read : readUntil space mayEnd text = some x) :
    Taken text x := by
  fun_induction readUntil space mayEnd text generalizing x with
  | case1 =>
    obtain rfl := Option.some.inj read
    exact ⟨[], rfl, List.nil_sublist _⟩
  | case2 => cases read
  | case3 r rest stops =>
    obtain rfl := Option.some.inj read
    exact ⟨[r], rfl, List.nil_sublist _⟩
  | case4 => cases read
  | case5 c rest on ih =>
    obtain ⟨y, inner, rfl⟩ := Option.map_eq_some_iff.mp read
    exact ((ih inner).cons c).skip [92]
  | case6 r rest on slash ih =>
    obtain ⟨y, inner, rfl⟩ := Option.map_eq_some_iff.mp read
    exact (ih inner).cons r

theorem taken_readValue (read : readValue space text = some x) : Taken text x := by
  rcases readValue_cases read with rfl | ⟨blanks, r, rest, rfl, -, ⟨-, quoted⟩ | ⟨-, plain⟩⟩
  · exact ⟨text, (List.append_nil _).symm, List.nil_sublist _⟩
  · exact ((taken_readUntil quoted).skip [r]).skip blanks
  · exact (taken_readUntil plain).skip blanks

theorem taken_readSetting {s : Setting} (read : readSetting space text = some (s, rest)) :
    Taken text (s.1 ++ s.2, rest) := by
  obtain ⟨blanks, after, rfl, value⟩ := readSetting_parts read
  obtain ⟨used, rfl, sub⟩ := taken_readValue value
  refine ⟨s.1 ++ (blanks ++ 61 :: used), by simp, (List.Sublist.refl _).append ?_⟩
  exact (sub.trans (List.sublist_cons_self ..)).trans (List.sublist_append_right ..)

theorem mem_readSettings {rounds : Nat} {settings : List Setting}
    (read : readSettings space rounds text = some settings) {s : Setting} (mem : s ∈ settings)
    {r : Nat} (part : r ∈ s.1 ++ s.2) : r ∈ text := by
  induction rounds generalizing text settings with
  | zero => cases read
  | succ rounds ih =>
    rcases readSettings_cases read with
      rfl | ⟨blanks, after, first, rest, others, rfl, setting, found, rfl⟩
    · cases mem
    · have taken := taken_readSetting setting
      refine List.mem_append_right _ ?_
      rcases List.mem_cons.mp mem with rfl | other
      · exact taken.mem (.inl part)
      · exact taken.mem (.inr (ih found other))

/-! ### What a reader consumes -/

theorem length_readUntil {mayEnd : Bool} (read : readUntil space mayEnd text = some x) :
    x.1.length + left x.2 ≤ text.length := by
  fun_induction readUntil space mayEnd text generalizing x with
  | case1 =>
    obtain rfl := Option.some.inj read
    exact Nat.le_refl _
  | case2 => cases read
  | case3 r rest stops =>
    obtain rfl := Option.some.inj read
    have bound := left_le rest
    simp only [List.length_cons, List.length_nil]
    omega
  | case4 => cases read
  | case5 c rest on ih =>
    obtain ⟨y, inner, rfl⟩ := Option.map_eq_some_iff.mp read
    have bound := ih inner
    simp only [List.length_cons]
    omega
  | case6 r rest on slash ih =>
    obtain ⟨y, inner, rfl⟩ := Option.map_eq_some_iff.mp read
    have bound := ih inner
    simp only [List.length_cons]
    omega

theorem length_readValue (read : readValue space text = some x) :
    x.1.length + left x.2 ≤ text.length := by
  rcases readValue_cases read with rfl | ⟨blanks, r, rest, rfl, -, ⟨-, quoted⟩ | ⟨-, plain⟩⟩
  · exact Nat.zero_le _
  · have bound := length_readUntil quoted
    rw [List.length_append, List.length_cons]
    omega
  · have bound := length_readUntil plain
    rw [List.length_append]
    omega

theorem length_readSetting {s : Setting} (read : readSetting space text = some (s, rest)) :
    s.1.length + s.2.length + 1 + left rest ≤ text.length := by
  obtain ⟨blanks, after, rfl, value⟩ := readSetting_parts read
  have bound : s.2.length + left rest ≤ after.length := length_readValue value
  rw [List.length_append, List.length_append, List.length_cons]
  omega

theorem size_readSettings {rounds : Nat} {settings : List Setting}
    (read : readSettings space rounds text = some settings) :
    size settings ≤ left text := by
  induction rounds generalizing text settings with
  | zero => cases read
  | succ rounds ih =>
    rcases readSettings_cases read with
      rfl | ⟨blanks, after, s, rest, others, rfl, first, found, rfl⟩
    · exact Nat.zero_le _
    · have later := ih found
      have length := length_readSetting first
      have total : (blanks ++ after).length = blanks.length + after.length := List.length_append
      rw [left_of_length (by omega), size]
      omega

theorem left_line (settings : List Setting) (last : Setting) :
    left (line settings last) = size (settings ++ [last]) := by
  have length : (line settings last).length + 1 = size (settings ++ [last]) := by
    induction settings with
    | nil =>
      simp only [line, writeSetting, List.flatMap_nil, List.nil_append, List.length_append,
        List.length_cons, size]
      omega
    | cons s settings ih =>
      simp only [line_cons, List.cons_append, List.length_append, List.length_cons, size]
      omega
  rw [left_of_length (List.length_pos_of_mem (a := 61) (by simp [line, writeSetting])), length]

theorem readSettings_rounds {n m : Nat} (one : text.length < n) (other : text.length < m) :
    readSettings space n text = readSettings space m text := by
  induction n generalizing m text with
  | zero => cases one
  | succ n ih =>
    cases m with
    | zero => cases other
    | succ m =>
      have shorter := (List.dropWhile_suffix space (l := text)).length_le
      rw [readSettings, readSettings]
      split
      · rfl
      · rename_i r after dropped
        rw [dropped] at shorter
        cases first : readSetting space (r :: after) with
        | none => rfl
        | some x =>
          have bound := length_readSetting first
          have rest := length_le_left x.2
          rw [Option.bind_some, Option.bind_some, ih (by omega) (by omega : x.2.length < m)]

/-! ### A text without waste -/

theorem readPlain_tight (read : readPlain space text = some x)
    (tight : text.length = x.1.length + left x.2) :
    (∀ r ∈ x.1, space r = false ∧ r ≠ 92) ∧ x.1 <+: text := by
  unfold readPlain at read
  fun_induction readUntil space true text generalizing x with
  | case1 =>
    obtain rfl := Option.some.inj read
    exact ⟨nofun, List.nil_prefix⟩
  | case2 => cases read
  | case3 r rest stops =>
    obtain rfl := Option.some.inj read
    exact ⟨nofun, List.nil_prefix⟩
  | case4 => cases read
  | case5 c rest on ih =>
    obtain ⟨y, inner, rfl⟩ := Option.map_eq_some_iff.mp read
    have bound := length_readUntil inner
    simp only [List.length_cons] at tight
    omega
  | case6 r rest on slash ih =>
    obtain ⟨y, inner, rfl⟩ := Option.map_eq_some_iff.mp read
    simp only [List.length_cons] at tight
    obtain ⟨plain, front⟩ := ih inner (by omega)
    exact ⟨List.forall_mem_cons.mpr ⟨⟨by simpa using on, slash⟩, plain⟩,
      List.cons_prefix_cons.mpr ⟨rfl, front⟩⟩

theorem readPlain_blank {blank : Nat} (separates : space blank = true) (rest : List Nat) :
    readPlain space (blank :: rest) = some ([], rest) := by
  rw [readPlain, readUntil.eq_def]
  simp [separates]

theorem readPlain_cons {r : Nat} (plain : space r = false ∧ r ≠ 92) (rest : List Nat) :
    readPlain space (r :: rest) = (readPlain space rest).map fun x => (r :: x.1, x.2) := by
  rw [readPlain, readUntil.eq_def]
  simp [plain.1, plain.2]

theorem readPlain_ne_nil {r : Nat} (first : space r = false)
    (read : readPlain space (r :: rest) = some x) : x.1 ≠ [] := by
  rw [readPlain, readUntil.eq_def] at read
  dsimp only at read
  rw [if_neg (by simp [first])] at read
  split_ifs at read
  · split at read
    · cases read
    · obtain ⟨y, inner, rfl⟩ := Option.map_eq_some_iff.mp read
      exact List.cons_ne_nil _ _
  · obtain ⟨y, inner, rfl⟩ := Option.map_eq_some_iff.mp read
    exact List.cons_ne_nil _ _

theorem readValue_tight (read : readValue space text = some x)
    (tight : text.length = x.1.length + left x.2) :
    Plain space x.1 ∨ text = [] := by
  rcases readValue_cases read with rfl | ⟨blanks, r, rest, rfl, first, ⟨-, quoted⟩ | ⟨quote, value⟩⟩
  · exact .inr (List.eq_nil_of_length_eq_zero tight)
  · have bound := length_readUntil quoted
    rw [List.length_append, List.length_cons] at tight
    omega
  · have bound := length_readUntil value
    rw [List.length_append] at tight
    obtain ⟨plain, behind, whole⟩ := readPlain_tight value (by omega)
    have some := readPlain_ne_nil first value
    refine .inl ⟨some, fun quoted => quote ?_, plain⟩
    cases taken : x.1 with
    | nil => exact absurd taken some
    | cons c v =>
      rw [taken] at quoted whole
      rw [← (List.cons.inj whole).1]
      exact Option.some.inj quoted

theorem readSetting_tight {s : Setting} (read : readSetting space text = some (s, rest))
    (tight : text.length = s.1.length + s.2.length + 1 + left rest) :
    Plain space s.2 ∨ text.getLast? = some 61 := by
  obtain ⟨blanks, after, rfl, value⟩ := readSetting_parts read
  have bound : s.2.length + left rest ≤ after.length := length_readValue value
  rw [List.length_append, List.length_append, List.length_cons] at tight
  refine (readValue_tight value (by dsimp only; omega)).imp_right fun none => ?_
  rw [none, ← List.append_assoc, List.getLast?_concat]

theorem readSettings_tight {rounds : Nat} {settings : List Setting}
    (read : readSettings space rounds text = some settings) (tight : left text ≤ size settings) :
      ∀ s ∈ settings, Plain space s.2 ∨ text.getLast? = some 61 := by
  induction rounds generalizing text settings with
  | zero => cases read
  | succ rounds ih =>
    rcases readSettings_cases read with
      rfl | ⟨blanks, after, s, rest, others, rfl, first, found, rfl⟩
    · exact nofun
    · have later := size_readSettings found
      have length := length_readSetting first
      have total : (blanks ++ after).length = blanks.length + after.length := List.length_append
      rw [size, left_of_length (by omega)] at tight
      obtain rfl : blanks = [] := List.eq_nil_of_length_eq_zero (by omega)
      refine List.forall_mem_cons.mpr ⟨readSetting_tight first (by omega), fun other mem => ?_⟩
      refine (ih found (by omega) other mem).imp_right fun ends => ?_
      obtain ⟨used, rfl, -⟩ := taken_readSetting first
      rw [List.nil_append, List.getLast?_append, ends, Option.some_or]

/-! ### Reading what was written -/

theorem readPlain_append {blank : Nat} (plain : ∀ r ∈ v, space r = false ∧ r ≠ 92)
    (separates : space blank = true) (rest : List Nat) :
      readPlain space (v ++ blank :: rest) = some (v, rest) := by
  induction v with
  | nil => exact readPlain_blank separates rest
  | cons r v ih =>
    rw [List.forall_mem_cons] at plain
    rw [List.cons_append, readPlain_cons plain.1, ih plain.2, Option.map_some]

theorem readPlain_end (plain : ∀ r ∈ v, space r = false ∧ r ≠ 92) :
    readPlain space v = some (v, []) := by
  induction v with
  | nil => rfl
  | cons r v ih =>
    rw [List.forall_mem_cons] at plain
    rw [readPlain_cons plain.1, ih plain.2, Option.map_some]

theorem Plain.readValue (plain : Plain space v) (rest : List Nat) :
    readValue space (v ++ rest) = readPlain space (v ++ rest) := by
  cases v with
  | nil => exact absurd rfl plain.some
  | cons r v =>
    have first := (plain.plain r (List.mem_cons_self ..)).1
    have quote : r ≠ 39 := fun same => plain.unquoted (by rw [same]; rfl)
    rw [ConnectionStrings.readValue, List.cons_append, List.dropWhile_cons_of_neg (by simp [first])]
    dsimp only
    rw [if_neg quote]

theorem readSetting_key {key : List Nat} (isKey : IsKey space key) (equals : space 61 = false)
    (text : List Nat) :
    readSetting space (key ++ 61 :: text) = (readValue space text).map fun x =>
      ((key, x.1), x.2) := by
  have keeps : ∀ r ∈ key, (!endsKey space r) = true := fun r mem => by simp [isKey.plain r mem]
  have stops : ¬ (!endsKey space 61) = true := by simp [endsKey]
  have name : (key ++ 61 :: text).takeWhile (!endsKey space ·) = key := by
    rw [List.takeWhile_append_of_pos keeps,
      List.takeWhile_cons_of_neg (p := (!endsKey space ·)) stops, List.append_nil]
  have rest : (key ++ 61 :: text).dropWhile (!endsKey space ·) = 61 :: text := by
    rw [List.dropWhile_append_of_pos keeps,
      List.dropWhile_cons_of_neg (p := (!endsKey space ·)) stops]
  rw [readSetting, name, rest, List.dropWhile_cons_of_neg (by simp [equals])]
  rfl

theorem settingsOf_key {key : List Nat} (isKey : IsKey space key) (equals : space 61 = false)
    (text : List Nat) :
    settingsOf space (key ++ 61 :: text) =
      (readValue space text).bind fun x => (settingsOf space x.2).map ((key, x.1) :: ·) := by
  have setting := readSetting_key isKey equals text
  have length : (key ++ 61 :: text).length = key.length + (text.length + 1) := List.length_append
  have first : ∃ r rest, key ++ 61 :: text = r :: rest ∧ space r = false := by
    cases key with
    | nil => exact absurd rfl isKey.some
    | cons r key =>
      have ends := isKey.plain r (List.mem_cons_self ..)
      rw [endsKey, Bool.or_eq_false_iff] at ends
      exact ⟨r, _, rfl, ends.1⟩
  obtain ⟨r, rest, start, kept⟩ := first
  rw [start] at setting length ⊢
  rw [settingsOf, readSettings, List.dropWhile_cons_of_neg (by simp [kept])]
  dsimp only
  rw [setting]
  cases value : readValue space text with
  | none => rfl
  | some x =>
    have bound := length_readValue value
    have after := length_le_left x.2
    rw [Option.map_some, Option.bind_some, Option.bind_some, settingsOf,
      readSettings_rounds (m := x.2.length + 1) (by omega) (Nat.lt_succ_self _)]

theorem settingsOf_line (blank : space 32 = true) (equals : space 61 = false) {last : Setting}
    {settings : List Setting} (keys : ∀ s ∈ settings ++ [last], IsKey space s.1)
    (values : ∀ s ∈ settings ++ [last], Plain space s.2) :
    settingsOf space (line settings last) = some (settings ++ [last]) := by
  induction settings with
  | nil =>
    have plain := values last (List.mem_cons_self ..)
    have read : readValue space last.2 = some (last.2, []) := by
      have start := plain.readValue []
      rw [List.append_nil] at start
      rw [start, readPlain_end plain.plain]
    have written : line [] last = last.1 ++ 61 :: last.2 := rfl
    rw [written, settingsOf_key (keys last (List.mem_cons_self ..)) equals, read]
    rfl
  | cons s settings ih =>
    rw [List.cons_append, List.forall_mem_cons] at keys values
    rw [line_cons, settingsOf_key keys.1 equals, values.1.readValue,
      readPlain_append values.1.plain blank,
      Option.bind_some, ih keys.2 values.2]
    rfl

/-! ### Settings of a line -/

theorem size_sublist {few many : List Setting} (sub : few.Sublist many) : size few ≤ size many := by
  induction sub with
  | slnil => exact Nat.le_refl _
  | cons s sub ih =>
    rw [size]
    omega
  | cons_cons s sub ih =>
    rw [size, size]
    omega

theorem size_perm {one other : List Setting} (perm : one.Perm other) : size one = size other := by
  induction perm with
  | nil => rfl
  | cons s perm ih => rw [size, size, ih]
  | swap s t rest =>
    simp only [size]
    omega
  | trans first second ih ih' => exact ih.trans ih'

theorem settingsOf_line_iff (blank : space 32 = true) (equals : space 61 = false) {last : Setting}
    {settings : List Setting} (keys : ∀ s ∈ settings ++ [last], IsKey space s.1)
    (different : (settings ++ [last]).Nodup) (ends : (line settings last).getLast? ≠ some 61) :
    (∃ found, settingsOf space (line settings last) = some found ∧
      ∀ s ∈ settings ++ [last], s ∈ found) ↔
      ∀ s ∈ settings ++ [last], Plain space s.2 := by
  constructor
  · rintro ⟨found, read, all⟩ s mem
    obtain ⟨same, perm, sub⟩ := different.subperm all
    have tight : left (line settings last) ≤ size found := by
      rw [left_line, ← size_perm perm]
      exact size_sublist sub
    exact (readSettings_tight read tight s (all s mem)).resolve_right ends
  · intro values
    exact ⟨_, settingsOf_line blank equals keys values, fun s mem => mem⟩

end TQDBProxy.ConnectionStrings
