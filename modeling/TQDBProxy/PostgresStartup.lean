import Mathlib.Logic.Function.Basic
import TQDBProxy.PostgresBind

/-! The first message of a client: a length, a protocol version and pairs of terminated
strings, up to an empty key. The loop that reads the pairs cuts the message by the places
of its terminators; a slice out of range would be a panic. -/

namespace TQDBProxy.Postgres

open Slices

inductive Looped (α : Type) where
  | returned (value : α)
  | panicked
  | running
  deriving DecidableEq

def indexByte (data : List UInt8) (b : UInt8) : Int :=
  match data.findIdx? (· == b) with
  | some i => i
  | none => -1

/-- The loop over the pairs, for some rounds; the newest pair is in front. -/
def parsePairs : Nat → List UInt8 → List (GoString × GoString) → Looped (List (GoString × GoString))
  | 0, _, _ => .running
  | rounds + 1, data, params =>
    if data.length = 0 then .returned params
    else
      let keyEnd := indexByte data 0
      if keyEnd ≤ 0 then .returned params
      else
        match slice data 0 keyEnd, slice data (keyEnd + 1) data.length with
        | some key, some data =>
          let valEnd := indexByte data 0
          if valEnd < 0 then .returned params
          else
            match slice data 0 valEnd, slice data (valEnd + 1) data.length with
            | some value, some data => parsePairs rounds data ((key, value) :: params)
            | _, _ => .panicked
        | _, _ => .panicked

def parseStartupParams (msg : List UInt8) : Looped (List (GoString × GoString)) :=
  if msg.length < 8 then .returned []
  else
    match slice msg 4 msg.length with
    | none => .panicked
    | some data =>
      if data.length < 4 then .returned []
      else
        match slice data 4 data.length with
        | none => .panicked
        | some data => parsePairs (data.length + 1) data []

/-! ### Cuts -/

variable {front back data : List UInt8} {b : UInt8}

theorem indexByte_append (absent : front.contains b = false) (back : List UInt8) :
    indexByte (front ++ b :: back) b = front.length := by
  have found : (front ++ b :: back).findIdx? (· == b) = some front.length := by
    induction front with
    | nil =>
      rw [List.nil_append, List.findIdx?_cons, beq_self_eq_true]
      rfl
    | cons a front ih =>
      rw [List.contains_cons, Bool.or_eq_false_iff] at absent
      have other : (a == b) = false := by
        rw [beq_eq_false_iff_ne]
        exact fun same => by simp [same] at absent
      rw [List.cons_append, List.findIdx?_cons, other, if_neg Bool.false_ne_true, ih absent.2]
      rfl
  rw [indexByte, found]

theorem indexByte_cases (data : List UInt8) (b : UInt8) :
    indexByte data b = -1 ∨ ∃ front back, data = front ++ b :: back ∧
      indexByte data b = front.length := by
  by_cases present : b ∈ data
  · obtain ⟨front, back, cut, absent⟩ := List.eq_append_cons_of_mem present
    refine .inr ⟨front, back, cut, ?_⟩
    rw [cut]
    exact indexByte_append (by simpa using absent) back
  · have missing : data.findIdx? (· == b) = none := by
      rw [List.findIdx?_eq_none_iff]
      intro c mem
      rw [beq_eq_false_iff_ne]
      rintro rfl
      exact present mem
    exact .inl (by rw [indexByte, missing])

/-- `data[n:]`. -/
theorem slice_rest {n : Nat} (inside : n ≤ data.length) :
    slice data n data.length = some (data.drop n) := by
  rw [slice_of_le inside (Nat.le_refl _), List.take_of_length_le (by rw [List.length_drop])]

theorem slice_front (front back : List UInt8) (b : UInt8) :
    slice (front ++ b :: back) 0 front.length = some front := by
  have inside : front.length ≤ (front ++ b :: back).length := by simp
  have cut := slice_of_le (Nat.zero_le front.length) inside
  rwa [List.drop_zero, Nat.sub_zero, List.take_left] at cut

theorem slice_back (front back : List UInt8) (b : UInt8) :
    slice (front ++ b :: back) (front.length + 1) (front ++ b :: back).length = some back := by
  have whole : front ++ b :: back = (front ++ [b]) ++ back := by simp
  have inside : front.length + 1 ≤ (front ++ b :: back).length := by simp
  have cut := slice_rest inside
  rw [Int.natCast_add, Int.natCast_one] at cut
  rw [cut, whole, List.drop_left' (by simp)]

/-! ### The loop -/

theorem parsePairs_pair {key value : GoString} (named : key ≠ [])
    (plainKey : key.contains 0 = false) (plainValue : value.contains 0 = false) (rounds : Nat)
    (rest : List UInt8) (params : List (GoString × GoString)) :
    parsePairs (rounds + 1) (key ++ 0 :: (value ++ 0 :: rest)) params =
      parsePairs rounds rest ((key, value) :: params) := by
  have keyEnd := indexByte_append plainKey (value ++ 0 :: rest)
  have valEnd := indexByte_append plainValue rest
  have positive : ¬ (key.length : Int) ≤ 0 := by
    have filled := List.length_pos_iff.mpr named
    omega
  rw [parsePairs, if_neg (by simp)]
  dsimp only
  rw [keyEnd, if_neg positive, slice_front, slice_back]
  dsimp only
  rw [valEnd, if_neg (by omega), slice_front, slice_back]

/-- A round that goes on has taken two bytes at least, so the loop ends in fewer rounds
than there are bytes, and it is never outside of its data. -/
theorem parsePairs_returns {rounds : Nat} (enough : data.length < rounds)
    (params : List (GoString × GoString)) :
    ∃ params', parsePairs rounds data params = .returned params' := by
  induction rounds generalizing data params with
  | zero => omega
  | succ rounds ih =>
    rw [parsePairs]
    split
    · exact ⟨_, rfl⟩
    dsimp only
    obtain missing | ⟨key, rest, rfl, keyEnd⟩ := indexByte_cases data 0
    · rw [missing, if_pos (by omega)]
      exact ⟨_, rfl⟩
    rw [keyEnd]
    split
    · exact ⟨_, rfl⟩
    rw [slice_front, slice_back]
    dsimp only
    obtain missing | ⟨value, later, rfl, valEnd⟩ := indexByte_cases rest 0
    · rw [missing, if_pos (by omega)]
      exact ⟨_, rfl⟩
    rw [valEnd, if_neg (by omega), slice_front, slice_back]
    refine ih ?_ _
    simp only [List.length_append, List.length_cons] at enough
    omega

theorem parseStartupParams_returns (msg : List UInt8) :
    ∃ params, parseStartupParams msg = .returned params := by
  rw [parseStartupParams]
  split
  · exact ⟨_, rfl⟩
  have four : slice msg 4 msg.length = some (msg.drop 4) := slice_rest (n := 4) (by omega)
  rw [four]
  dsimp only
  split
  · exact ⟨_, rfl⟩
  have eight : slice (msg.drop 4) 4 (msg.drop 4).length = some ((msg.drop 4).drop 4) :=
    slice_rest (n := 4) (by omega)
  rw [eight]
  exact parsePairs_returns (Nat.lt_succ_self _) []

/-! ### The message -/

/-- A key with its value. An empty key would end the message. -/
structure StartupPair where
  key : GoString
  value : GoString
  named : key ≠ []
  plainKey : key.contains 0 = false
  plainValue : value.contains 0 = false

def StartupPair.encode (p : StartupPair) : List UInt8 := p.key ++ 0 :: (p.value ++ [0])

def startupBody (protocol : Nat) (pairs : List StartupPair) : List UInt8 :=
  putUint32 protocol ++ (pairs.flatMap StartupPair.encode ++ [0])

structure StartupMessage where
  protocol : Nat
  pairs : List StartupPair
  fits : (startupBody protocol pairs).length < 4294967292

def StartupMessage.encode (m : StartupMessage) : List UInt8 :=
  putUint32 ((startupBody m.protocol m.pairs).length + 4) ++ startupBody m.protocol m.pairs

def StartupPair.override (map : GoString → Option GoString) (p : StartupPair) :
    GoString → Option GoString :=
  Function.update map p.key (some p.value)

/-- The map of a list of pairs; a later pair overrides an earlier one. -/
def startupMap (pairs : List StartupPair) : GoString → Option GoString :=
  pairs.foldl StartupPair.override fun _ => none

theorem startupMap_lookup (pairs : List StartupPair) (params : List (GoString × GoString)) :
    pairs.foldl StartupPair.override (fun key => lookup key params) =
      fun key => lookup key ((pairs.map fun p => (p.key, p.value)).reverse ++ params) := by
  induction pairs generalizing params with
  | nil => rfl
  | cons p pairs ih =>
    have first : StartupPair.override (fun key => lookup key params) p =
        fun key => lookup key ((p.key, p.value) :: params) := by
      funext key
      rw [StartupPair.override, Function.update_apply, lookup_cons]
      by_cases same : key = p.key
      · rw [if_pos same, if_pos same.symm]
      · rw [if_neg same, if_neg (Ne.symm same)]
    rw [List.foldl_cons, first, ih, List.map_cons, List.reverse_cons, List.append_assoc,
      List.singleton_append]

theorem parsePairs_encode (pairs : List StartupPair) {rounds : Nat} (enough : pairs.length < rounds)
    (params : List (GoString × GoString)) :
    parsePairs rounds (pairs.flatMap StartupPair.encode ++ [0]) params =
      .returned ((pairs.map fun p => (p.key, p.value)).reverse ++ params) := by
  induction pairs generalizing rounds params with
  | nil =>
    obtain ⟨k, rfl⟩ : ∃ k, rounds = k + 1 := ⟨rounds - 1, by omega⟩
    rfl
  | cons p pairs ih =>
    obtain ⟨k, rfl⟩ : ∃ k, rounds = k + 1 := ⟨rounds - 1, by omega⟩
    rw [List.length_cons] at enough
    have parts : (p :: pairs).flatMap StartupPair.encode ++ [0] =
        p.key ++ 0 :: (p.value ++ 0 :: (pairs.flatMap StartupPair.encode ++ [0])) := by
      simp [StartupPair.encode]
    rw [parts, parsePairs_pair p.named p.plainKey p.plainValue, ih (by omega), List.map_cons,
      List.reverse_cons,
      List.append_assoc, List.singleton_append]

theorem length_pairs (pairs : List StartupPair) :
    pairs.length ≤ (pairs.flatMap StartupPair.encode).length := by
  induction pairs with
  | nil => exact Nat.le_refl 0
  | cons p pairs ih =>
    have terminated : 1 ≤ p.encode.length := by
      rw [StartupPair.encode, List.length_append, List.length_cons]
      omega
    rw [List.flatMap_cons, List.length_append, List.length_cons]
    omega

theorem parseStartupParams_encode (m : StartupMessage) :
    parseStartupParams m.encode = .returned (m.pairs.map fun p => (p.key, p.value)).reverse := by
  have size : 8 ≤ m.encode.length := by
    simp only [StartupMessage.encode, startupBody, List.length_append, length_putUint32]
    omega
  have head : m.encode.drop 4 = startupBody m.protocol m.pairs := rfl
  have body : (startupBody m.protocol m.pairs).drop 4 = m.pairs.flatMap StartupPair.encode ++
    [0] := rfl
  have four : slice m.encode 4 m.encode.length = some (m.encode.drop 4) :=
    slice_rest (n := 4) (by omega)
  have inner : ¬ (startupBody m.protocol m.pairs).length < 4 := by
    rw [startupBody, List.length_append, length_putUint32]
    omega
  have eight : slice (startupBody m.protocol m.pairs) 4 (startupBody m.protocol m.pairs).length =
      some ((startupBody m.protocol m.pairs).drop 4) := slice_rest (n := 4) (Nat.le_of_not_lt inner)
  have rounds : m.pairs.length < (m.pairs.flatMap StartupPair.encode ++ [0]).length + 1 := by
    have shorter := length_pairs m.pairs
    rw [List.length_append]
    omega
  rw [parseStartupParams, if_neg (Nat.not_lt_of_le size), four, head]
  dsimp only
  rw [if_neg inner, eight, body]
  dsimp only
  rw [parsePairs_encode m.pairs rounds, List.append_nil]

theorem readStartupMessage_encode (m : StartupMessage) (rest : List UInt8) :
    readStartupMessage { unread := m.encode ++ rest } =
      (.ok m.encode, ⟨rest, [4, (startupBody m.protocol m.pairs).length]⟩) := by
  have announced :=
    uint32_putUint32 (n := (startupBody m.protocol m.pairs).length + 4) (by have := m.fits; omega)
  have size : (uint32 (putUint32 ((startupBody m.protocol m.pairs).length + 4)) - 4).toNat =
      (startupBody m.protocol m.pairs).length := by
    rw [payload_size (by omega), announced, Nat.add_sub_cancel]
  have length := readFull_append (putUint32 ((startupBody m.protocol m.pairs).length + 4))
    (startupBody m.protocol m.pairs ++ rest) []
  have body := readFull_append (startupBody m.protocol m.pairs) rest ([] ++ [4])
  rw [length_putUint32] at length
  rw [StartupMessage.encode, List.append_assoc]
  simp only [readStartupMessage, length, size, body]
  rfl

/-- Every start-up message is read whole and gives the map of its pairs, and on any bytes
whatever the loop comes to its end within them. -/
theorem startup_params_recovered (m : StartupMessage) (rest bytes : List UInt8) :
    (∃ msg c params, readStartupMessage { unread := m.encode ++ rest } = (.ok msg, c) ∧
      c.unread = rest ∧
      parseStartupParams msg = .returned params ∧
        ∀ key, lookup key params = startupMap m.pairs key) ∧
    ∃ params, parseStartupParams bytes = .returned params := by
  refine ⟨⟨_, _, _, readStartupMessage_encode m rest, rfl, parseStartupParams_encode m, ?_⟩,
    parseStartupParams_returns bytes⟩
  have map := startupMap_lookup m.pairs []
  rw [List.append_nil] at map
  exact fun key => (congrFun map key).symm

end TQDBProxy.Postgres
