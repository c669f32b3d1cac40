import Mathlib.Data.List.Infix
import TQDBProxy.GoStrings

/-! What `TrimSpace` removes, and that `Itoa` prints the digits of its number. -/

namespace TQDBProxy

namespace Strings

def Made (pieces : List GoString) (s : GoString) : Prop :=
  ∃ parts : List GoString, (∀ p ∈ parts, p ∈ pieces) ∧ parts.flatten = s

variable {pieces : List GoString}

theorem dropPieces_split (pieces : List GoString) (fuel : Nat) (s : GoString) :
    ∃ u, s = u ++ dropPieces pieces fuel s ∧ Made pieces u := by
  induction fuel generalizing s with
  | zero => exact ⟨[], rfl, [], by simp, rfl⟩
  | succ fuel ih =>
    simp only [dropPieces]
    split
    · rename_i piece found
      have starts : piece <+: s := by
        simpa using List.find?_some found
      obtain ⟨u, eq, parts, mem, flat⟩ := ih (s.drop piece.length)
      refine ⟨piece ++ u, ?_, piece :: parts, ?_, by simp [flat]⟩
      · rw [List.append_assoc, ← eq]
        exact (List.prefix_iff_eq_append.mp starts).symm
      · simpa using ⟨List.mem_of_find?_eq_some found, mem⟩
    · exact ⟨[], rfl, [], by simp, rfl⟩

theorem dropPieces_made (free : ∀ p ∈ pieces, ∀ p' ∈ pieces, p <+: p' → p = p')
    (nonempty : [] ∉ pieces) {u t : GoString} (made : Made pieces u)
    (stop : ∀ p ∈ pieces, ¬ p <+: t) {fuel : Nat} (enough : u.length < fuel ∨ u = []) :
    dropPieces pieces fuel (u ++ t) = t := by
  obtain ⟨parts, mem, rfl⟩ := made
  induction parts generalizing fuel with
  | nil =>
    cases fuel with
    | zero => rfl
    | succ fuel =>
      have none : pieces.find? (·.isPrefixOf t) = none := by
        simpa [List.find?_eq_none] using stop
      simp [dropPieces, none]
  | cons p parts ih =>
    have pmem : p ∈ pieces := mem p (by simp)
    have pne : p ≠ [] := fun eq => nonempty (eq ▸ pmem)
    have long : (p ++ parts.flatten).length < fuel := by
      refine enough.resolve_right ?_
      simp [pne]
    obtain ⟨fuel, rfl⟩ : ∃ k, fuel = k + 1 := ⟨fuel - 1, by omega⟩
    have starts : p <+: p ++ parts.flatten ++ t := by simp
    have found : pieces.find? (·.isPrefixOf (p ++ parts.flatten ++ t)) = some p := by
      cases other : pieces.find? (·.isPrefixOf (p ++ parts.flatten ++ t)) with
      | none =>
        have all := List.find?_eq_none.mp other p pmem
        exact absurd (List.isPrefixOf_iff_prefix.mpr starts) all
      | some p' =>
        have p'mem := List.mem_of_find?_eq_some other
        have p'starts : p' <+: p ++ parts.flatten ++ t := by
          simpa using List.find?_some other
        rcases List.prefix_or_prefix_of_prefix starts p'starts with pre | pre
        · rw [free p pmem p' p'mem pre]
        · rw [free p' p'mem p pmem pre]
    have flat : (p :: parts).flatten ++ t = p ++ parts.flatten ++ t := by simp
    have positive : 0 < p.length := List.length_pos_iff.mpr pne
    rw [flat, dropPieces, found]
    simp only [List.append_assoc, List.drop_left]
    refine ih (fun q qmem => mem q (List.mem_cons_of_mem _ qmem)) (.inl ?_)
    simp only [List.length_append] at long
    omega

theorem dropPieces_stop (nonempty : [] ∉ pieces) {fuel : Nat} {s : GoString}
    (enough : s.length ≤ fuel) : ∀ p ∈ pieces, ¬ p <+: dropPieces pieces fuel s := by
  induction fuel generalizing s with
  | zero =>
    obtain rfl : s = [] := List.length_eq_zero_iff.mp (by omega)
    intro p mem pre
    obtain rfl : p = [] := by simpa [dropPieces] using pre
    exact nonempty mem
  | succ fuel ih =>
    simp only [dropPieces]
    split
    · rename_i piece found
      have starts : piece <+: s := by simpa using List.find?_some found
      have positive : piece ≠ [] := fun eq => nonempty (eq ▸ List.mem_of_find?_eq_some found)
      have shorter := List.length_pos_iff.mpr positive
      refine ih ?_
      rw [List.length_drop]
      omega
    · rename_i none
      simpa using List.find?_eq_none.mp none

/-- Bytes of white space: ASCII, or part of the encoding of a longer rune. -/
def spaceByte (b : UInt8) : Bool := b == 32 || (9 ≤ b && b ≤ 13) || 128 ≤ b

theorem spaceByte_spaces : ∀ p ∈ Unicode.spaces, ∀ b ∈ p, spaceByte b = true := by
  have all : Unicode.spaces.all (·.all spaceByte) = true := by decide
  intro p space
  exact List.all_eq_true.mp (List.all_eq_true.mp all p space)

def reversedSpaces : List GoString := Unicode.spaces.map List.reverse

theorem reversedSpaces_free : ∀ p ∈ reversedSpaces, ∀ p' ∈ reversedSpaces, p <+: p' → p = p' := by
  decide

theorem nil_not_mem_reversedSpaces : [] ∉ reversedSpaces := by decide

theorem trimLeft_split (s : GoString) :
    ∃ u, s = u ++ trimLeft s ∧ ∀ b ∈ u, spaceByte b = true := by
  obtain ⟨u, eq, parts, mem, flat⟩ := dropPieces_split Unicode.spaces s.length s
  refine ⟨u, eq, fun b bmem => ?_⟩
  obtain ⟨p, pmem, bmem⟩ := List.mem_flatten.mp (flat ▸ bmem)
  exact spaceByte_spaces p (mem p pmem) b bmem

theorem trimRight_split (s : GoString) :
    ∃ w, s = trimRight s ++ w ∧ Made reversedSpaces w.reverse := by
  obtain ⟨u, eq, made⟩ := dropPieces_split reversedSpaces s.length s.reverse
  refine ⟨u.reverse, ?_, by simpa using made⟩
  have back := congrArg List.reverse eq
  simpa [trimRight, reversedSpaces] using back

theorem spaceByte_of_made {w : GoString} (made : Made reversedSpaces w.reverse) :
    ∀ b ∈ w, spaceByte b = true := by
  intro b bmem
  obtain ⟨parts, mem, flat⟩ := made
  obtain ⟨p, pmem, bmem⟩ := List.mem_flatten.mp (flat ▸ List.mem_reverse.mpr bmem)
  obtain ⟨q, qmem, rfl⟩ := List.mem_map.mp (mem p pmem)
  exact spaceByte_spaces q qmem b (List.mem_reverse.mp bmem)

theorem trimSpace_split (s : GoString) :
    ∃ u w, s = u ++ trimSpace s ++ w ∧ (∀ b ∈ u, spaceByte b = true) ∧
      Made reversedSpaces w.reverse := by
  obtain ⟨u, left, ubytes⟩ := trimLeft_split s
  obtain ⟨w, right, made⟩ := trimRight_split (trimLeft s)
  refine ⟨u, w, ?_, ubytes, made⟩
  calc s = u ++ trimLeft s := left
    _ = u ++ (trimSpace s ++ w) := congrArg (u ++ ·) right
    _ = u ++ trimSpace s ++ w := (List.append_assoc ..).symm

theorem trimSpace_last {s y w : GoString} {c : UInt8} (eq : s = y ++ c :: w)
    (other : spaceByte c = false) (made : Made reversedSpaces w.reverse) :
    ∃ y', trimSpace s = y' ++ [c] := by
  obtain ⟨u, left, ubytes⟩ := trimLeft_split s
  have kept : ∃ y', trimLeft s = y' ++ c :: w := by
    rcases List.append_eq_append_iff.mp (left.symm.trans eq) with ⟨z, rfl, eq'⟩ | ⟨z, rfl, eq'⟩
    · exact ⟨z, eq'⟩
    · cases z with
      | nil => exact ⟨[], by simpa using eq'.symm⟩
      | cons e z =>
        obtain ⟨rfl, -⟩ := List.cons.inj eq'
        have spaced := ubytes c (by simp)
        simp [other] at spaced
  obtain ⟨y', trimmed⟩ := kept
  have stop : ∀ p ∈ reversedSpaces, ¬ p <+: c :: y'.reverse := by
    intro p mem pre
    obtain ⟨q, qmem, rfl⟩ := List.mem_map.mp mem
    cases rev : q.reverse with
    | nil => exact nil_not_mem_reversedSpaces (rev ▸ mem)
    | cons e rest =>
      rw [rev] at pre
      obtain ⟨rfl, -⟩ := List.cons_prefix_cons.mp pre
      have spaced := spaceByte_spaces q qmem e (List.mem_reverse.mp (by simp [rev]))
      simp [other] at spaced
  have dropped : dropPieces reversedSpaces (trimLeft s).length (w.reverse ++ c :: y'.reverse) =
      c :: y'.reverse := by
    refine dropPieces_made reversedSpaces_free nil_not_mem_reversedSpaces made stop (.inl ?_)
    simp [trimmed]
    omega
  refine ⟨y', ?_⟩
  have reversed : (trimLeft s).reverse = w.reverse ++ c :: y'.reverse := by simp [trimmed]
  rw [trimSpace, trimRight, ← reversedSpaces, reversed, dropped]
  simp

theorem trimSpace_not_space {s y : GoString} : trimSpace s ≠ y ++ [32] := by
  intro eq
  have ends : dropPieces reversedSpaces (trimLeft s).length (trimLeft s).reverse =
      32 :: y.reverse := by
    have back := congrArg List.reverse eq
    simpa [trimSpace, trimRight, reversedSpaces] using back
  have stop : ¬ [32] <+: dropPieces reversedSpaces (trimLeft s).length (trimLeft s).reverse :=
    dropPieces_stop nil_not_mem_reversedSpaces (by simp) [32] (by decide)
  exact stop (by simp [ends])

end Strings

namespace Strconv

theorem itoaAux_digits (fuel n : Nat) (acc : GoString)
    (digits : ∀ b ∈ acc, 48 ≤ b.toNat ∧ b.toNat ≤ 57) :
    ∀ b ∈ itoaAux fuel n acc, 48 ≤ b.toNat ∧ b.toNat ≤ 57 := by
  induction fuel generalizing n acc with
  | zero => exact digits
  | succ fuel ih =>
    have grown : ∀ b ∈ UInt8.ofNat (48 + n % 10) :: acc, 48 ≤ b.toNat ∧ b.toNat ≤ 57 := by
      intro b mem
      rcases List.mem_cons.mp mem with rfl | mem
      · rw [UInt8.toNat_ofNat']
        omega
      · exact digits b mem
    simp only [itoaAux]
    split_ifs
    · exact grown
    · exact ih _ _ grown

theorem itoa_digits (n : Nat) : ∀ b ∈ itoa n, 48 ≤ b.toNat ∧ b.toNat ≤ 57 :=
  itoaAux_digits _ n [] (by simp)

theorem itoaAux_ne_nil (fuel n : Nat) (acc : GoString) (ready : fuel ≠ 0 ∨ acc ≠ []) :
    itoaAux fuel n acc ≠ [] := by
  induction fuel generalizing n acc with
  | zero => exact ready.resolve_left (by simp)
  | succ fuel ih =>
    simp only [itoaAux]
    split_ifs
    · simp
    · exact ih _ _ (.inr (by simp))

theorem itoa_ne_nil (n : Nat) : itoa n ≠ [] := itoaAux_ne_nil _ n [] (.inl (by simp))

def valueFrom (start : Nat) (s : GoString) : Nat :=
  s.foldl (fun n b => n * 10 + (b.toNat - 48)) start

theorem valueFrom_itoaAux (fuel n : Nat) (acc : GoString) (enough : n < fuel) :
    valueFrom 0 (itoaAux fuel n acc) = valueFrom n acc := by
  induction fuel generalizing n acc with
  | zero => omega
  | succ fuel ih =>
    have digit : (UInt8.ofNat (48 + n % 10)).toNat - 48 = n % 10 := by
      rw [UInt8.toNat_ofNat']
      omega
    simp only [itoaAux]
    split_ifs with small
    · simp only [valueFrom, List.foldl_cons, digit]
      congr 1
      omega
    · rw [ih _ _ (by omega)]
      simp only [valueFrom, List.foldl_cons, digit]
      congr 1
      omega

theorem digitsValue_itoa (n : Nat) : digitsValue (itoa n) = n :=
  valueFrom_itoaAux (n + 1) n [] (by omega)

end Strconv

end TQDBProxy
