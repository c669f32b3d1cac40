import Mathlib.Logic.Function.Basic

/-! Byte slices of Go over a memory of arrays. A slice is a part of an array, and two
slices may share one, so a write through a slice is a write to its array. An access
beyond the end of a slice has no result. -/

namespace TQDBProxy.GoSlices

/-- Arrays by their address; the addresses from `fresh` on are not in use. -/
structure Memory where
  arrays : Nat → List UInt8
  fresh : Nat

structure Slice where
  array : Nat
  start : Nat
  length : Nat
  deriving DecidableEq

def Slice.bytes (s : Slice) (m : Memory) : List UInt8 :=
  ((m.arrays s.array).drop s.start).take s.length

def Slice.Valid (s : Slice) (m : Memory) : Prop :=
  s.array < m.fresh ∧ s.start + s.length ≤ (m.arrays s.array).length

def Memory.write (m : Memory) (array : Nat) (bytes : List UInt8) : Memory :=
  { m with arrays := Function.update m.arrays array bytes }

def make (length : Nat) (m : Memory) : Slice × Memory :=
  (⟨m.fresh, 0, length⟩, { m.write m.fresh (List.replicate length 0) with fresh := m.fresh + 1 })

def copy (dst src : Slice) (m : Memory) : Memory :=
  let moved := (src.bytes m).take dst.length
  let old := m.arrays dst.array
  m.write dst.array (old.take dst.start ++ moved ++ old.drop (dst.start + moved.length))

def Slice.get (s : Slice) (i : Nat) (m : Memory) : Option UInt8 :=
  if i < s.length then (m.arrays s.array)[s.start + i]? else none

def Slice.set (s : Slice) (i : Nat) (b : UInt8) (m : Memory) : Option Memory :=
  if i < s.length then some (m.write s.array ((m.arrays s.array).set (s.start + i) b)) else none

def Slice.tail (s : Slice) (i : Nat) : Option Slice :=
  if i ≤ s.length then some ⟨s.array, s.start + i, s.length - i⟩ else none

def Memory.Keeps (m m' : Memory) : Prop := ∀ a < m.fresh, m'.arrays a = m.arrays a

structure Slice.Holds (s : Slice) (m : Memory) (front body : List UInt8) : Prop where
  contents : m.arrays s.array = front ++ body
  start : s.start = front.length
  length : s.length = body.length

variable {s : Slice} {m : Memory} {front body : List UInt8} {i : Nat}

theorem Slice.Holds.bytes (holds : s.Holds m front body) : s.bytes m = body := by
  rw [Slice.bytes, holds.contents, holds.start, holds.length, List.drop_left, List.take_length]

theorem Slice.Holds.get (holds : s.Holds m front body) : s.get i m = body[i]? := by
  unfold Slice.get
  rw [holds.contents, holds.start, holds.length, List.getElem?_append_right (Nat.le_add_right ..),
    Nat.add_sub_cancel_left]
  split
  · rfl
  · rename_i bound
    exact (List.getElem?_eq_none (Nat.not_lt.mp bound)).symm

theorem Slice.Holds.set (holds : s.Holds m front body) (bound : i < body.length) (b : UInt8) :
    s.set i b m = some (m.write s.array (front ++ body.set i b)) := by
  unfold Slice.set
  rw [holds.length, if_pos bound, holds.contents, holds.start,
    List.set_append_right _ _ (Nat.le_add_right ..), Nat.add_sub_cancel_left]

theorem Slice.Holds.write (holds : s.Holds m front body) {after : List UInt8}
    (same : after.length = body.length) : s.Holds (m.write s.array (front ++ after)) front after :=
  ⟨by simp [Memory.write], holds.start, by rw [holds.length, same]⟩

theorem Slice.Holds.write_self (holds : s.Holds m front body) :
    m.write s.array (front ++ body) = m := by
  rw [← holds.contents, Memory.write, Function.update_eq_self]

theorem Memory.write_write (m : Memory) (array : Nat) (before after : List UInt8) :
    (m.write array before).write array after = m.write array after := by
  simp [Memory.write]

theorem Slice.Holds.tail (holds : s.Holds m front body) (bound : i ≤ body.length) :
    ∃ t, s.tail i = some t ∧ t.array = s.array ∧
      t.Holds m (front ++ body.take i) (body.drop i) := by
  refine ⟨⟨s.array, s.start + i, s.length - i⟩, ?_, rfl, ?_⟩
  · rw [Slice.tail, holds.length, if_pos bound]
  · refine ⟨?_, ?_, ?_⟩
    · simp [holds.contents]
    · simp [holds.start, bound]
    · simp [holds.length]

def clone (s : Slice) (m : Memory) : Slice × Memory :=
  let (dst, m) := make s.length m
  (dst, copy dst s m)

theorem clone_holds (valid : s.Valid m) :
    (clone s m).1.Holds (clone s m).2 [] (s.bytes m) ∧ m.Keeps (clone s m).2 ∧
      (clone s m).1.array = m.fresh := by
  have other : s.array ≠ m.fresh := Nat.ne_of_lt valid.1
  have long : (s.bytes m).length = s.length := by
    have := valid.2
    simp only [Slice.bytes, List.length_take, List.length_drop]
    omega
  have same : s.bytes (make s.length m).2 = s.bytes m := by
    simp [Slice.bytes, make, Memory.write, other]
  refine ⟨⟨?_, rfl, long.symm⟩, fun a used => ?_, rfl⟩
  · simp only [clone, copy, same]
    simp [make, Memory.write, ← long]
  · simp [clone, copy, make, Memory.write, Nat.ne_of_lt used]

end TQDBProxy.GoSlices
