import TQDBProxy.ListCopies

/-! Lists cut at offsets, and the machines that choose the offsets. A machine reads
symbols that each stand for some elements and cuts at symbols of its choice; what
it leaves between the cuts are the segments of the whole list at its offsets. -/

namespace TQDBProxy.ListSegments

variable {α β σ : Type*} {x : α}

/-- The pieces between the elements at the given offsets, in a list that starts at `start`. -/
def segmentsFrom (start : Nat) (s : List α) : List Nat → List (List α)
  | [] => [s]
  | c :: cuts => s.take (c - start) :: segmentsFrom (c + 1) (s.drop (c - start + 1)) cuts

def segments (s : List α) (cuts : List Nat) : List (List α) := segmentsFrom 0 s cuts

theorem segmentsFrom_ne_nil (start : Nat) (s : List α) (cuts : List Nat) :
    segmentsFrom start s cuts ≠ [] := by
  cases cuts <;> simp [segmentsFrom]

structure CutsFrom (x : α) (start : Nat) (s : List α) (cuts : List Nat) : Prop where
  ascending : cuts.Pairwise (· < ·)
  place : ∀ c ∈ cuts, start ≤ c ∧ s[c - start]? = some x

abbrev CutsAt (x : α) (s : List α) (cuts : List Nat) : Prop := CutsFrom x 0 s cuts

theorem joinWith_segmentsFrom {start : Nat} {s : List α} {cuts : List Nat}
    (cut : CutsFrom x start s cuts) : joinWith [x] (segmentsFrom start s cuts) = s := by
  induction cuts generalizing start s with
  | nil => rfl
  | cons c cuts ih =>
    obtain ⟨within, place⟩ := cut.place c (by simp)
    obtain ⟨later, ascending⟩ := List.pairwise_cons.mp cut.ascending
    have rest : CutsFrom x (c + 1) (s.drop (c - start + 1)) cuts := by
      refine ⟨ascending, fun c' mem => ⟨later c' mem, ?_⟩⟩
      have := later c' mem
      rw [List.getElem?_drop, show c - start + 1 + (c' - (c + 1)) = c' - start by omega]
      exact (cut.place c' (by simp [mem])).2
    obtain ⟨bound, eq⟩ := List.getElem?_eq_some_iff.mp place
    rw [segmentsFrom, ListCopies.joinWith_cons (segmentsFrom_ne_nil _ _ _), ih rest]
    calc s.take (c - start) ++ [x] ++ s.drop (c - start + 1)
        = s.take (c - start) ++ s.drop (c - start) := by
          rw [List.drop_eq_getElem_cons bound, eq, List.append_assoc]
          rfl
      _ = s := List.take_append_drop ..

theorem length_segmentsFrom (start : Nat) (s : List α) (cuts : List Nat) :
    (segmentsFrom start s cuts).length = cuts.length + 1 := by
  induction cuts generalizing start s with
  | nil => rfl
  | cons c cuts ih => rw [segmentsFrom, List.length_cons, ih, List.length_cons]

theorem length_part_le {part : List α} {parts : List (List α)} (mem : part ∈ parts) :
    part.length + parts.length ≤ (joinWith [x] parts).length + 1 := by
  induction parts generalizing part with
  | nil => cases mem
  | cons p parts ih =>
    cases parts with
    | nil =>
      obtain rfl := List.mem_singleton.mp mem
      exact Nat.le_refl _
    | cons next rest =>
      rw [ListCopies.joinWith_cons (List.cons_ne_nil _ _)]
      rcases List.mem_cons.mp mem with rfl | mem
      · have := ih (List.mem_cons_self (a := next))
        simp only [List.length_append, List.length_cons, List.length_nil] at this ⊢
        omega
      · have := ih mem
        simp only [List.length_append, List.length_cons, List.length_nil] at this ⊢
        omega

theorem uncut_of_long_segment {s part : List α} {cuts : List Nat} (cut : CutsAt x s cuts)
    (mem : part ∈ segments s cuts) (long : s.length ≤ part.length) : cuts = [] ∧ part = s := by
  have bound := length_part_le (x := x) mem
  rw [segments, joinWith_segmentsFrom cut, length_segmentsFrom] at bound
  have none : cuts = [] := List.eq_nil_of_length_eq_zero (by omega)
  subst none
  exact ⟨rfl, List.mem_singleton.mp mem⟩

section Machine

variable (enc : β → List α) (next : σ → β → σ) (cuts : σ → β → Bool)

/-- What the machine leaves between its cuts; `current` is the piece it is writing. -/
def pieces (q : σ) (current : List α) : List β → List (List α)
  | [] => [current]
  | r :: rs =>
    if cuts q r then current :: pieces (next q r) [] rs
    else pieces (next q r) (current ++ enc r) rs

def offsets (q : σ) (start : Nat) : List β → List Nat
  | [] => []
  | r :: rs =>
    if cuts q r then start :: offsets (next q r) (start + (enc r).length) rs
    else offsets (next q r) (start + (enc r).length) rs

variable {enc next cuts}

theorem mem_offsets {q : σ} {start c : Nat} {rs : List β} :
    c ∈ offsets enc next cuts q start rs ↔ ∃ before r after, rs = before ++ r :: after ∧
      cuts (before.foldl next q) r = true ∧ c = start + (before.flatMap enc).length := by
  induction rs generalizing q start with
  | nil => simp [offsets]
  | cons r rs ih =>
    have later : c ∈ offsets enc next cuts (next q r) (start + (enc r).length) rs ↔
        ∃ before r' after, r :: rs = (r :: before) ++ r' :: after ∧
          cuts ((r :: before).foldl next q) r' = true ∧
          c = start + ((r :: before).flatMap enc).length := by
      rw [ih]
      simp [Nat.add_assoc]
    have first : (∃ before r' after, r :: rs = before ++ r' :: after ∧
          cuts (before.foldl next q) r' = true ∧ c = start + (before.flatMap enc).length) ↔
        (cuts q r = true ∧ c = start) ∨ c ∈ offsets enc next cuts (next q r)
          (start + (enc r).length) rs := by
      rw [later]
      constructor
      · rintro ⟨before, r', after, eq, cut, place⟩
        cases before with
        | nil =>
          obtain ⟨rfl, rfl⟩ := List.cons.inj eq
          exact .inl ⟨cut, place⟩
        | cons b before =>
          obtain ⟨rfl, rfl⟩ := List.cons.inj eq
          exact .inr ⟨before, r', after, rfl, cut, place⟩
      · rintro (⟨cut, place⟩ | ⟨before, r', after, eq, cut, place⟩)
        · exact ⟨[], r, rs, rfl, cut, place⟩
        · exact ⟨r :: before, r', after, eq, cut, place⟩
    rw [first, offsets]
    split
    · rename_i cut
      simp [cut]
    · rename_i whole
      simp [whole]

theorem offsets_append (q : σ) (start : Nat) (rs ts : List β) :
    offsets enc next cuts q start (rs ++ ts) = offsets enc next cuts q start rs ++
      offsets enc next cuts (rs.foldl next q) (start + (rs.flatMap enc).length) ts := by
  induction rs generalizing q start with
  | nil => simp [offsets]
  | cons r rs ih =>
    rw [List.cons_append, offsets, offsets, ih, List.foldl_cons, List.flatMap_cons,
      List.length_append, Nat.add_assoc]
    split <;> simp

section Single

variable (single : ∀ q r, cuts q r = true → enc r = [x])
include single

theorem offsets_cutsFrom (q : σ) (start : Nat) (rs : List β) :
    CutsFrom x start (rs.flatMap enc) (offsets enc next cuts q start rs) := by
  have place : ∀ c ∈ offsets enc next cuts q start rs,
      start ≤ c ∧ (rs.flatMap enc)[c - start]? = some x := by
    intro c mem
    obtain ⟨before, r, after, rfl, cut, rfl⟩ := mem_offsets.mp mem
    refine ⟨by omega, ?_⟩
    rw [Nat.add_sub_cancel_left, List.flatMap_append, List.flatMap_cons, single _ r cut]
    simp
  refine ⟨?_, place⟩
  clear place
  induction rs generalizing q start with
  | nil => exact .nil
  | cons r rs ih =>
    rw [offsets]
    split
    · rename_i cut
      refine List.pairwise_cons.mpr ⟨fun c mem => ?_, ih ..⟩
      obtain ⟨before, r', after, -, -, rfl⟩ := mem_offsets.mp mem
      rw [single _ r cut]
      simp
      omega
    · exact ih ..

theorem pieces_eq_segmentsFrom (q : σ) (start : Nat) (current : List α) (rs : List β) :
    pieces enc next cuts q current rs = segmentsFrom start (current ++ rs.flatMap enc)
      (offsets enc next cuts q (start + current.length) rs) := by
  induction rs generalizing q start current with
  | nil => simp [pieces, offsets, segmentsFrom]
  | cons r rs ih =>
    rw [pieces, offsets]
    split
    · rename_i cut
      rw [segmentsFrom, Nat.add_sub_cancel_left, List.take_left, ih _ (start + current.length + 1)]
      have front : current.length + 1 = (current ++ [x]).length := by simp
      rw [List.flatMap_cons, single _ r cut, ← List.append_assoc, front, List.drop_left]
      rfl
    · rw [ih _ start, List.flatMap_cons, List.length_append, List.append_assoc, Nat.add_assoc]

theorem pieces_eq_segments (q : σ) (rs : List β) :
    pieces enc next cuts q [] rs =
      segments (rs.flatMap enc) (offsets enc next cuts q 0 rs) :=
  pieces_eq_segmentsFrom single q 0 [] rs

end Single

end Machine

section Agreement

variable {τ : Type*} (next : σ → β → σ) (cuts : σ → β → Bool) (next' : τ → β → τ)
  (cuts' : τ → β → Bool)

def agree (q : σ) (q' : τ) : List β → Bool
  | [] => true
  | r :: rs => (cuts q r == cuts' q' r) && agree (next q r) (next' q' r) rs

variable {next cuts next' cuts'} {enc : β → List α}

theorem later_offset (wide : ∀ r, enc r ≠ []) {q : σ} {start : Nat} {r : β} {rs : List β} :
    start ∉ offsets enc next cuts q (start + (enc r).length) rs := by
  intro mem
  obtain ⟨before, r', after, -, -, eq⟩ := mem_offsets.mp mem
  have := List.length_pos_iff.mpr (wide r)
  omega

theorem offsets_eq_iff (wide : ∀ r, enc r ≠ []) (q : σ) (q' : τ) (start : Nat) (rs : List β) :
    offsets enc next cuts q start rs = offsets enc next' cuts' q' start rs ↔
      agree next cuts next' cuts' q q' rs = true := by
  induction rs generalizing q q' start with
  | nil => simp [offsets, agree]
  | cons r rs ih =>
    rw [offsets, offsets, agree, Bool.and_eq_true, ← ih _ _ (start + (enc r).length), beq_iff_eq]
    cases one : cuts q r with
    | true =>
      cases other : cuts' q' r with
      | true => simp
      | false =>
        simp only [if_true, Bool.false_eq_true, if_false, Bool.true_eq_false, false_and, iff_false]
        intro same
        exact later_offset wide (same ▸ List.mem_cons_self)
    | false =>
      cases other : cuts' q' r with
      | true =>
        simp only [if_true, Bool.false_eq_true, if_false, false_and, iff_false]
        intro same
        exact later_offset wide (same ▸ List.mem_cons_self)
      | false => simp

end Agreement

end TQDBProxy.ListSegments
