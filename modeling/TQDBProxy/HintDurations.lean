import TQDBProxy.CheckedSlices
import TQDBProxy.HintRecovery
import TQDBProxy.ProxyEvents

/-! The durations that hints stand for. The digits of a hint are read as an `int64`, or as
the largest one, and the number of seconds or milliseconds is multiplied in 64 bits to
nanoseconds. The product wraps around long before the digits do. -/

namespace TQDBProxy.Parser

open Regex Slices

def batchDelay (batchMs : Nat) : Int := Int.bmod (batchMs * 1000000 : Nat) (1 <<< 64)

/-- The number that stands in a group of the hints, whatever its size; 0 without hints. -/
def hintValue (group : Nat) (query : GoString) : Nat :=
  match hintRegex.find none query with
  | none => 0
  | some m => Strconv.digitsValue (m.submatch group)

def ttlHint (query : GoString) : Nat := hintValue 2 query

def batchHint (query : GoString) : Nat := hintValue 8 query

/-- The texts whose hints are at most `limit` have positive durations in the order of their
hints. -/
structure SoundUpTo (limit : Nat) (admitted : GoString → Bool) (hint : GoString → Nat)
    (duration : GoString → Int) : Prop where
  positive : ∀ q, admitted q = true → hint q ≤ limit → 0 < duration q
  monotone : ∀ q q', admitted q = true → admitted q' = true → hint q ≤ hint q' → hint q' ≤ limit →
    duration q ≤ duration q'

/-- A duration is the number of a hint, or the largest one, times a unit. -/
def Scaled (unit : Nat) (admitted : GoString → Bool) (hint : GoString → Nat)
    (duration : GoString → Int) : Prop :=
  ∀ q, admitted q = true → 0 < hint q ∧
    duration q = int64 (min (hint q) ((1 <<< 63) - 1) * unit : Nat)

section Scaled

variable {unit largest limit : Nat} {admitted : GoString → Bool} {hint : GoString → Nat}
  {duration : GoString → Int}

theorem Scaled.exact (scaled : Scaled unit admitted hint duration) (fits : largest * unit < 2 ^ 63)
    (some : 0 < unit) {q : GoString} (mem : admitted q = true) (small : hint q ≤ largest) :
    duration q = (hint q * unit : Nat) := by
  have product : hint q * unit ≤ largest * unit := Nat.mul_le_mul_right unit small
  have bound : hint q ≤ hint q * unit := Nat.le_mul_of_pos_right _ some
  have whole : min (hint q) ((1 <<< 63) - 1) = hint q := Nat.min_eq_left (by omega)
  rw [(scaled q mem).2, whole]
  exact int64_of_lt (by omega)

theorem Scaled.soundUpTo_iff (scaled : Scaled unit admitted hint duration)
    (fits : largest * unit < 2 ^ 63) (some : 0 < unit) (wrapped : GoString)
    (mem : admitted wrapped = true) (next : hint wrapped = largest + 1)
    (wraps : duration wrapped ≤ 0) : SoundUpTo limit admitted hint duration ↔ limit ≤ largest := by
  constructor
  · intro sound
    by_contra large
    have positive := sound.positive wrapped mem (by omega)
    omega
  · intro small
    refine ⟨fun q mem low => ?_, fun q q' mem mem' order low => ?_⟩
    · have product : 0 < hint q * unit := Nat.mul_pos (scaled q mem).1 some
      rw [scaled.exact fits some mem (by omega)]
      omega
    · have product : hint q * unit ≤ hint q' * unit := Nat.mul_le_mul_right unit order
      rw [scaled.exact fits some mem (by omega), scaled.exact fits some mem' (by omega)]
      omega

end Scaled

/-! ### The two hints -/

theorem parse_no_ttl {q : GoString} (none : hintRegex.find .none q = .none) :
    (parse q).ttl = 0 ∧ (parse q).batchMs = 0 := by
  unfold parse applyHints
  rw [none]
  dsimp only
  split <;> exact ⟨rfl, rfl⟩

theorem ttl_of_cacheable {q : GoString} (cacheable : (parse q).isCacheable = true) :
    0 < ttlHint q ∧ (parse q).ttl = min (ttlHint q) ((1 <<< 63) - 1) := by
  have positive : 0 < (parse q).ttl := by
    unfold ParsedQuery.isCacheable at cacheable
    simpa using (Bool.and_eq_true_iff.mp cacheable).2
  unfold ttlHint hintValue
  cases found : hintRegex.find none q with
  | none => exact absurd (parse_no_ttl found).1 (Nat.ne_of_gt positive)
  | some m =>
    obtain ⟨-, -, -, ttl, -⟩ := parse_hinted found
    rw [ttl] at positive ⊢
    split_ifs at positive ⊢ with writes
    · omega
    · rw [atoi] at positive ⊢
      exact ⟨Nat.lt_of_lt_of_le positive (Nat.min_le_left ..), rfl⟩

theorem batchMs_of_batchable {q : GoString} (batchable : (parse q).isBatchable = true) :
    0 < batchHint q ∧ (parse q).batchMs = min (batchHint q) ((1 <<< 63) - 1) := by
  have positive : 0 < (parse q).batchMs := by
    unfold ParsedQuery.isBatchable at batchable
    simpa using (Bool.and_eq_true_iff.mp batchable).2
  unfold batchHint hintValue
  cases found : hintRegex.find none q with
  | none => exact absurd (parse_no_ttl found).2 (Nat.ne_of_gt positive)
  | some m =>
    obtain ⟨-, -, batchMs, -, -⟩ := parse_hinted found
    rw [batchMs, atoi] at positive ⊢
    exact ⟨Nat.lt_of_lt_of_le positive (Nat.min_le_left ..), rfl⟩

/-- A TTL gives a positive life time up to 9223372036 seconds, and a delay of a batch up to
9223372036854 milliseconds. -/
theorem hint_durations_sound_iff (limit : Nat) :
    (SoundUpTo limit (fun q => (parse q).isCacheable) ttlHint (fun q => ttlDuration (parse q).ttl) ↔
      limit ≤ 9223372036) ∧
    (SoundUpTo limit (fun q => (parse q).isBatchable) batchHint
      (fun q => batchDelay (parse q).batchMs) ↔
      limit ≤ 9223372036854) := by
  have ttls :
      Scaled 1000000000 (fun q => (parse q).isCacheable) ttlHint
        (fun q => ttlDuration (parse q).ttl) := by
    intro q cacheable
    obtain ⟨positive, ttl⟩ := ttl_of_cacheable cacheable
    refine ⟨positive, ?_⟩
    dsimp only
    rw [ttl]
    rfl
  have delays :
      Scaled 1000000 (fun q => (parse q).isBatchable) batchHint
        (fun q => batchDelay (parse q).batchMs) := by
    intro q batchable
    obtain ⟨positive, batchMs⟩ := batchMs_of_batchable batchable
    refine ⟨positive, ?_⟩
    dsimp only
    rw [batchMs]
    rfl
  constructor
  · exact ttls.soundUpTo_iff (by decide) (by decide) (lit "/* ttl:9223372037 */ SELECT 1")
      (by decide +kernel)
      (by decide +kernel) (by decide +kernel)
  · exact delays.soundUpTo_iff (by decide) (by decide)
      (lit "/* batch:9223372036855 */ DELETE FROM t")
      (by decide +kernel) (by decide +kernel) (by decide +kernel)

/-- One second more than fits gives a negative life time, and so do more digits than an
integer has. -/
theorem hint_durations_overflow :
    (parse (lit "/* ttl:9223372037 */ SELECT 1")).isCacheable = true ∧
    ttlDuration (parse (lit "/* ttl:9223372037 */ SELECT 1")).ttl = -9223372036709551616 ∧
    ttlDuration (parse (lit "/* ttl:99999999999999999999 */ SELECT 1")).ttl = -1000000000 ∧
    ttlDuration (parse (lit "/* ttl:18446744074 */ SELECT 1")).ttl = 290448384 ∧
    batchDelay (parse (lit "/* batch:9223372036855 */ DELETE FROM t")).batchMs =
      -9223372036854551616 := by
  decide +kernel

end TQDBProxy.Parser
