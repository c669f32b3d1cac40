import Mathlib.Algebra.Group.Int.Defs
import Mathlib.Algebra.Group.Nat.Defs
import Mathlib.Data.List.Basic

/-! Index and slice operations on Go slices, which fail outside the slice, and
the wrapping of 64-bit integers. -/

namespace TQDBProxy.Slices

variable {α : Type*} {data : List α}

def Addressable (data : List α) : Prop := data.length < 2 ^ 60

instance (data : List α) : Decidable (Addressable data) := inferInstanceAs (Decidable (_ < _))

/-- The value of a sum or a conversion in type `int`. -/
def int64 (n : Int) : Int := Int.bmod n (1 <<< 64)

/-- `data[i]`. -/
def index (data : List α) (i : Int) : Option α := if 0 ≤ i then data[i.toNat]? else none

/-- `data[i:j]`. -/
def slice (data : List α) (i j : Int) : Option (List α) :=
  if 0 ≤ i ∧ i ≤ j ∧ j ≤ data.length then some ((data.drop i.toNat).take (j - i).toNat) else none

theorem int64_of_lt {n : Nat} (small : n < 2 ^ 63) : int64 n = n := by
  apply Int.bmod_eq_of_le
  · simp
  · simp
    omega

theorem int64_add {m n : Nat} (small : m + n < 2 ^ 63) : int64 ((m : Int) + n) = (m + n : Nat) := by
  rw [← Int.natCast_add]
  exact int64_of_lt small

theorem int64_add_int64 (m n : Int) : int64 (m + int64 n) = int64 (m + n) :=
  Int.add_bmod_bmod

theorem int64_of_ge {n : Nat} (large : 2 ^ 63 ≤ n) (bounded : n < 2 ^ 63 + 2 ^ 64) :
    int64 n = n - 2 ^ 64 := by
  rw [int64, ← Int.sub_bmod_right]
  apply Int.bmod_eq_of_le
  · simp
    omega
  · simp
    omega

theorem index_of_lt {i : Nat} (inside : i < data.length) : index data i = some data[i] := by
  simp [index, inside]

theorem slice_of_le {i j : Nat} (ordered : i ≤ j) (inside : j ≤ data.length) :
    slice data i j = some ((data.drop i).take (j - i)) := by
  have width : ((j : Int) - i).toNat = j - i := by omega
  rw [slice, if_pos (by omega), width, Int.toNat_natCast]

theorem slice_of_lt {i j : Int} (crossed : j < i) : slice data i j = none :=
  if_neg (by omega)

end TQDBProxy.Slices
