import Mathlib.Data.List.Infix
import TQDBProxy.GoStrings

/-! Separated copies of a list. When a list is cut and the part after the cut is repeated,
the result is the list with one of its own parts repeated only if the cut was made
at that part and nothing follows it. Elements that are `foreign` may be lost. -/

namespace TQDBProxy.ListCopies

variable {α : Type*} {c s : α} {P u S w b v a : List α} {n : Nat}

def more (c : α) (l : List α) (n : Nat) : List α := (List.replicate n (c :: l)).flatten

theorem more_succ (c : α) (l : List α) (n : Nat) : more c l (n + 1) = c :: l ++ more c l n := by
  simp [more, List.replicate_succ]

theorem more_succ' (c : α) (l : List α) (n : Nat) : more c l (n + 1) = more c l n ++ c :: l := by
  simp [more, List.replicate_succ']

theorem length_more (c : α) (l : List α) (n : Nat) : (more c l n).length = n * l.length + n := by
  simp [more, Nat.mul_succ]

theorem joinWith_replicate (c : α) (l : List α) (n : Nat) :
    joinWith [c] (List.replicate (n + 1) l) = l ++ more c l n := by
  induction n with
  | zero => simp [joinWith, more]
  | succ n ih =>
    rw [List.replicate_succ, List.replicate_succ, joinWith, ← List.replicate_succ, ih, more_succ]
    simp

theorem append_inj_of_first {p : α → Prop} {l l' r r' : List α} {x : α}
    (same : l ++ x :: r = l' ++ x :: r') (out : ¬ p x) (left : ∀ y ∈ l, p y)
    (left' : ∀ y ∈ l', p y) : l = l' ∧ r = r' := by
  rcases List.append_eq_append_iff.mp same with ⟨z, rfl, rest⟩ | ⟨z, rfl, rest⟩
  · cases z with
    | nil => exact ⟨by simp, by simpa using rest⟩
    | cons y z =>
      obtain ⟨rfl, -⟩ := List.cons.inj rest
      exact absurd (left' x (by simp)) out
  · cases z with
    | nil => exact ⟨by simp, (by simpa using rest : r' = r).symm⟩
    | cons y z =>
      obtain ⟨rfl, -⟩ := List.cons.inj rest
      exact absurd (left x (by simp)) out

theorem append_inj_of_last {l l' r r' : List α} {x : α} (same : l ++ x :: r = l' ++ x :: r')
    (right : x ∉ r) (right' : x ∉ r') : l = l' ∧ r = r' := by
  have mirrored : r.reverse ++ x :: l.reverse = r'.reverse ++ x :: l'.reverse := by
    simpa using congrArg List.reverse same
  obtain ⟨tails, fronts⟩ := append_inj_of_first (p := (· ≠ x)) mirrored (by simp)
    (fun y mem eq => right (by simpa [eq] using mem))
    (fun y mem eq => right' (by simpa [eq] using mem))
  exact ⟨List.reverse_injective fronts, List.reverse_injective tails⟩

theorem length_forced (whole : P ++ u ++ S ++ w = b ++ v ++ a)
    (built : P ++ S ++ more c S n = b ++ v ++ more c v n ++ a) :
    n * S.length = n * v.length + (u.length + w.length) := by
  have wholeLength := congrArg List.length whole
  have builtLength := congrArg List.length built
  simp only [List.length_append, length_more] at wholeLength builtLength
  omega

theorem length_le_of_forced (some : 0 < n)
    (forced : n * S.length = n * v.length + (u.length + w.length)) : v.length ≤ S.length := by
  refine Nat.le_of_mul_le_mul_left ?_ some
  omega

section
variable {foreign : α → Prop} {b' : List α}

theorem end_forced (separator : ¬ foreign c) (keyword : ¬ foreign s)
    (wf : ∀ x ∈ w, foreign x) (last : ∀ x, S.getLast? = some x → ¬ foreign x)
    (ending : b = b' ++ [s]) (whole : P ++ u ++ S ++ w = b ++ v ++ a)
    (built : P ++ S ++ more c S (n + 1) = b ++ v ++ more c v (n + 1) ++ a) : w = [] := by
  rcases List.eq_nil_or_concat' w with eq | ⟨w', x, rfl⟩
  · exact eq
  have foreignLast : foreign x := wf x (by simp)
  have wholeLast : ((v ++ a).getLast?).or (some s) = some x := by
    have h := congrArg List.getLast? whole
    rw [ending, ← List.append_assoc _ w', List.getLast?_concat, List.append_assoc _ v a,
      List.getLast?_append, List.getLast?_concat] at h
    exact h.symm
  have builtLast : (S.getLast?).or (some c) = ((v ++ a).getLast?).or (some c) := by
    have built' :
        (P ++ S ++ more c S n ++ [c]) ++ S = (b ++ v ++ more c v n ++ [c]) ++ (v ++ a) := by
      simpa [more_succ'] using built
    have h := congrArg List.getLast? built'
    rwa [List.getLast?_append, List.getLast?_concat, List.getLast?_append,
      List.getLast?_concat] at h
  cases tail : (v ++ a).getLast? with
  | none =>
    rw [tail] at wholeLast
    obtain rfl : s = x := by simpa using wholeLast
    exact absurd foreignLast keyword
  | some y =>
    rw [tail] at wholeLast builtLast
    obtain rfl : y = x := by simpa using wholeLast
    cases tailS : S.getLast? with
    | none =>
      rw [tailS] at builtLast
      obtain rfl : c = y := by simpa using builtLast
      exact absurd foreignLast separator
    | some z =>
      rw [tailS] at builtLast
      obtain rfl : z = y := by simpa using builtLast
      exact absurd foreignLast (last z tailS)

theorem start_forced (separator : ¬ foreign c) (keyword : ¬ foreign s) (distinct : s ≠ c)
    (uf : ∀ x ∈ u, foreign x) (ending : b = b' ++ [s])
    (whole : P ++ u ++ S = b ++ v ++ a)
    (built : P ++ S ++ more c S (n + 1) = b ++ v ++ more c v (n + 1) ++ a) : u = [] := by
  rcases List.eq_nil_or_concat' u with eq | ⟨u', x, rfl⟩
  · exact eq
  have foreignLast : foreign x := uf x (by simp)
  have whole' : (P ++ u') ++ x :: S = b' ++ (s :: (v ++ a)) := by simpa [ending] using whole
  have built' : (P ++ S ++ more c S n) ++ c :: S = (b ++ v ++ more c v n) ++ c :: (v ++ a) := by
    simpa [more_succ'] using built
  rcases List.append_eq_append_iff.mp whole' with ⟨z, -, eq⟩ | ⟨z, -, eq⟩
  · cases z with
    | nil =>
      obtain ⟨rfl, -⟩ := List.cons.inj eq
      exact absurd foreignLast keyword
    | cons y z =>
      obtain ⟨-, eq⟩ := List.cons.inj eq
      have same : (P ++ S ++ more c S n ++ c :: z) ++ [s] ++ (v ++ a) =
          (b ++ v ++ more c v n) ++ [c] ++ (v ++ a) := by
        simpa [eq] using built'
      have heads := (List.append_inj' (List.append_cancel_right same) rfl).2
      exact absurd (by simpa using heads) distinct
  · cases z with
    | nil =>
      obtain ⟨rfl, -⟩ := List.cons.inj eq
      exact absurd foreignLast keyword
    | cons y z =>
      obtain ⟨-, eq⟩ := List.cons.inj eq
      have same : (P ++ S ++ more c S n) ++ [c] ++ S =
          (b ++ v ++ more c v n ++ c :: z) ++ [x] ++ S := by
        simpa [eq] using built'
      have heads := (List.append_inj' (List.append_cancel_right same) rfl).2
      obtain rfl : c = x := by simpa using heads
      exact absurd foreignLast separator

theorem foreign_forced (separator : ¬ foreign c) (keyword : ¬ foreign s)
    (rest : ∀ x ∈ u ++ S ++ w, foreign x) (ending : b = b' ++ [s])
    (stop : ∀ x, a.head? = some x → x ≠ c) (whole : P ++ u ++ S ++ w = b ++ v ++ a)
    (built : P ++ S ++ more c S (n + 1) = b ++ v ++ more c v (n + 1) ++ a) :
    P = b ∧ S = v := by
  have forced := length_forced whole built
  have longer := length_le_of_forced (Nat.succ_pos n) forced
  have whole' : P ++ (u ++ S ++ w) = b ++ (v ++ a) := by simpa using whole
  -- the cut is not inside the part before the values, which ends with `s`
  obtain ⟨m, rfl, tail⟩ : ∃ m, P = b ++ m ∧ v ++ a = m ++ (u ++ S ++ w) := by
    rcases List.append_eq_append_iff.mp whole' with ⟨z, eq, tail⟩ | found
    · rcases List.eq_nil_or_concat' z with rfl | ⟨z', y, rfl⟩
      · exact ⟨[], by simpa using eq.symm, by simpa using tail.symm⟩
      · have heads : b' ++ [s] = (P ++ z') ++ [y] := by rw [← ending, eq, List.append_assoc]
        obtain rfl : s = y := by simpa using (List.append_inj' heads rfl).2
        exact absurd (rest s (by rw [tail]; simp)) keyword
    · exact found
  -- nor is it behind the first copy, where the separator is
  obtain ⟨v', rfl, left⟩ : ∃ v', v = m ++ v' ∧ u ++ S ++ w = v' ++ a := by
    rcases List.append_eq_append_iff.mp tail with ⟨z, rfl, eq⟩ | found
    · cases z with
      | nil => exact ⟨[], by simp, by simpa using eq.symm⟩
      | cons y z =>
        rw [more_succ c v, more_succ c S] at built
        have heads : y = c := by
          have same : (b ++ v) ++ (y :: (z ++ S ++ (c :: S ++ more c S n))) =
              (b ++ v) ++ (c :: (v ++ more c v n ++ a)) := by simpa using built
          exact (List.cons.inj (List.append_cancel_left same)).1
        exact absurd heads (stop y (by simp [eq]))
    · exact found
  have copies : S ++ c :: (S ++ more c S n) = v' ++ c :: (m ++ v' ++ more c (m ++ v') n ++ a) := by
    have same : (b ++ m) ++ (S ++ c :: (S ++ more c S n)) =
        (b ++ m) ++ (v' ++ c :: (m ++ v' ++ more c (m ++ v') n ++ a)) := by
      simpa [more_succ] using built
    exact List.append_cancel_left same
  obtain ⟨rfl, -⟩ := append_inj_of_first copies separator (fun x mem => rest x (by simp [mem]))
    (fun x mem => rest x (by rw [left]; simp [mem]))
  obtain rfl : m = [] := by
    refine List.length_eq_zero_iff.mp ?_
    simp only [List.length_append] at longer
    omega
  exact ⟨by simp, by simp⟩

/-- A text cut into `P`, `u`, `S` and `w` whose middle part is repeated is the
text with `v` repeated only if the cut is at `v` and nothing follows it. -/
theorem copies_forced (foreign : α → Prop) (separator : ¬ foreign c) (keyword : ¬ foreign s)
    (distinct : s ≠ c) (uf : ∀ x ∈ u, foreign x) (wf : ∀ x ∈ w, foreign x)
    (last : (∀ x, S.getLast? = some x → ¬ foreign x) ∨ ∀ x ∈ S, foreign x)
    (ending : b = b' ++ [s]) (stop : ∀ x, a.head? = some x → x ≠ c)
    (whole : P ++ u ++ S ++ w = b ++ v ++ a)
    (built : P ++ S ++ more c S (n + 1) = b ++ v ++ more c v (n + 1) ++ a) :
    P = b ∧ S = v ∧ u = [] ∧ w = [] ∧ a = [] := by
  have cut : P = b ∧ S = v := by
    rcases last with last | all
    · obtain rfl := end_forced separator keyword wf last ending whole built
      have whole' : P ++ u ++ S = b ++ v ++ a := by simpa using whole
      obtain rfl := start_forced separator keyword distinct uf ending whole' built
      have same : (n + 1) * S.length = (n + 1) * v.length := by
        simpa using length_forced whole built
      have lengths : S.length = v.length := Nat.eq_of_mul_eq_mul_left (Nat.succ_pos n) same
      obtain rfl : a = [] := by
        cases a with
        | nil => rfl
        | cons y a =>
          have heads : (b ++ v) ++ y :: (a ++ (c :: S ++ more c S n)) =
              (b ++ v) ++ c :: (v ++ more c v n ++ y :: a) := by
            have split : P ++ S = b ++ v ++ y :: a := by simpa using whole'
            rw [split, more_succ, more_succ] at built
            simpa using built
          exact absurd (List.cons.inj (List.append_cancel_left heads)).1 (stop y rfl)
      have split : P ++ S = b ++ v := by simpa using whole'
      exact List.append_inj' split lengths
    · refine foreign_forced separator keyword (fun x mem => ?_) ending stop whole built
      simp only [List.mem_append] at mem
      rcases mem with (mem | mem) | mem
      · exact uf x mem
      · exact all x mem
      · exact wf x mem
  obtain ⟨rfl, rfl⟩ := cut
  have forced := length_forced whole built
  have total := congrArg List.length whole
  simp only [List.length_append] at total
  refine ⟨rfl, rfl, ?_, ?_, ?_⟩
  all_goals exact List.length_eq_zero_iff.mp (by omega)

end

theorem joinWith_cons {sep x : List α} {xs : List (List α)} (some : xs ≠ []) :
    joinWith sep (x :: xs) = x ++ sep ++ joinWith sep xs := by
  cases xs with
  | nil => exact absurd rfl some
  | cons y ys => rfl

theorem mem_joinWith {sep : List α} {ls : List (List α)} {x : α} (mem : x ∈ joinWith sep ls) :
    x ∈ sep ∨ ∃ l ∈ ls, x ∈ l := by
  induction ls with
  | nil => simp [joinWith] at mem
  | cons l rest ih =>
    cases rest with
    | nil => exact .inr ⟨l, by simp, mem⟩
    | cons l' rest =>
      rw [joinWith_cons (List.cons_ne_nil l' rest), List.mem_append, List.mem_append] at mem
      rcases mem with (mem | mem) | mem
      · exact .inr ⟨l, by simp, mem⟩
      · exact .inl mem
      · rcases ih mem with mem | ⟨k, kmem, mem⟩
        · exact .inl mem
        · exact .inr ⟨k, List.mem_cons_of_mem _ kmem, mem⟩

theorem joinWith_hom {β : Type*} (h : List α → List β) (nil : h [] = [])
    (append : ∀ x y, h (x ++ y) = h x ++ h y) (sep : List α) (ls : List (List α)) :
    h (joinWith sep ls) = joinWith (h sep) (ls.map h) := by
  induction ls with
  | nil => exact nil
  | cons l rest ih =>
    cases rest with
    | nil => rfl
    | cons l' rest =>
      rw [joinWith_cons (List.cons_ne_nil l' rest), append, append, ih]
      rfl

theorem length_joinWith {ls : List (List α)} {k : Nat} (some : ls ≠ [])
    (lengths : ∀ l ∈ ls, l.length = k) : (joinWith [c] ls).length + 1 = ls.length * (k + 1) := by
  induction ls with
  | nil => exact absurd rfl some
  | cons l rest ih =>
    have first : l.length = k := lengths l (by simp)
    cases rest with
    | nil => simp [joinWith, first]
    | cons l' rest =>
      have tail := ih (by simp) fun x mem => lengths x (List.mem_cons_of_mem _ mem)
      rw [joinWith_cons (by simp), List.length_append, List.length_append, first,
        List.length_singleton, List.length_cons (a := l), Nat.succ_mul, ← tail]
      omega

theorem joinWith_inj {ls ls' : List (List α)} (count : ls.length = ls'.length)
    (lengths : ∀ l ∈ ls, l.length = n) (lengths' : ∀ l ∈ ls', l.length = n)
    (same : joinWith [c] ls = joinWith [c] ls') : ls = ls' := by
  induction ls generalizing ls' with
  | nil => exact (List.length_eq_zero_iff.mp count.symm).symm
  | cons l rest ih =>
    cases ls' with
    | nil => simp at count
    | cons l' rest' =>
      have first : l.length = l'.length := (lengths l (by simp)).trans (lengths' l' (by simp)).symm
      have count' : rest.length = rest'.length := by simpa using count
      cases rest with
      | nil =>
        obtain rfl := (List.length_eq_zero_iff.mp count'.symm)
        simpa [joinWith] using same
      | cons m rest =>
        have some : rest' ≠ [] := by
          intro eq
          simp [eq] at count'
        rw [joinWith_cons (by simp), joinWith_cons some, List.append_assoc, List.append_assoc]
          at same
        obtain ⟨rfl, tails⟩ := List.append_inj same first
        have tails : joinWith [c] (m :: rest) = joinWith [c] rest' := by simpa using tails
        rw [ih count' (fun x mem => lengths x (List.mem_cons_of_mem _ mem))
          (fun x mem => lengths' x (List.mem_cons_of_mem _ mem)) tails]

def tuple (c o e : α) (items : List α) : List α :=
  o :: joinWith [c] (items.map fun x => [x]) ++ [e]

section
variable {o e : α} {item : α → Prop}

theorem length_tuple {items : List α} (some : items ≠ []) :
    (tuple c o e items).length = 2 * items.length + 1 := by
  have inner : (joinWith [c] (items.map fun x => [x])).length + 1 =
      (items.map fun x => [x]).length * (1 + 1) :=
    length_joinWith (by simpa using some) (by simp)
  simp only [List.length_map] at inner
  simp [tuple]
  omega

theorem item_of_tuple {items x y : List α} {z : α} (opening : o ≠ c) (closing : e ≠ c)
    (other : ∀ i, item i → i ≠ c) (all : ∀ i ∈ items, item i)
    (same : tuple c o e items = x ++ c :: z :: y) : item z := by
  have inner : ∀ (items x : List α), (∀ i ∈ items, item i) →
      joinWith [c] (items.map fun x => [x]) ++ [e] = x ++ c :: z :: y → item z := by
    intro items
    induction items with
    | nil =>
      intro x _ same
      cases x with
      | nil => simp [joinWith, closing] at same
      | cons x xs => simp [joinWith] at same
    | cons i rest ih =>
      intro x all same
      have first : i ≠ c := other i (all i (by simp))
      cases rest with
      | nil =>
        rcases x with _ | ⟨x, _ | ⟨x', xs⟩⟩
        · simp [joinWith, first] at same
        · simp [joinWith, closing] at same
        · simp [joinWith] at same
      | cons k rest =>
        rw [List.map_cons, joinWith_cons (by simp)] at same
        rcases x with _ | ⟨x, _ | ⟨x', xs⟩⟩
        · simp [first] at same
        · cases rest with
          | nil =>
            simp [joinWith] at same
            exact same.2.1 ▸ all k (by simp)
          | cons k' rest =>
            simp [joinWith] at same
            exact same.2.1 ▸ all k (by simp)
        · refine ih xs (fun i mem => all i (List.mem_cons_of_mem _ mem)) ?_
          simp at same
          simpa using same.2.2
  cases x with
  | nil => simp [tuple, opening] at same
  | cons x xs =>
    refine inner items xs all ?_
    simp only [tuple, List.cons_append] at same
    exact (List.cons.inj same).2

theorem boundary (item : α → Prop) {tuples : List (List α)} {x y : List α} {z : α}
    (positive : 0 < n) (opening : o ≠ c) (closing : e ≠ c) (other : ∀ i, item i → i ≠ c)
    (all : ∀ t ∈ tuples, ∃ items, items.length = n ∧ (∀ i ∈ items, item i) ∧ t = tuple c o e items)
    (plain : ¬ item z) (same : joinWith [c] tuples = x ++ c :: z :: y) :
    ∃ j, x.length + 1 = (j + 1) * (2 * n + 2) := by
  induction tuples generalizing x with
  | nil => simp [joinWith] at same
  | cons t rest ih =>
    obtain ⟨items, count, each, rfl⟩ := all t (by simp)
    have some : items ≠ [] := List.ne_nil_of_length_pos (by omega)
    have long := length_tuple (c := c) (o := o) (e := e) some
    cases rest with
    | nil => exact absurd (item_of_tuple opening closing other each same) plain
    | cons u rest =>
      rw [joinWith_cons (by simp), List.append_assoc] at same
      rcases List.append_eq_append_iff.mp same with ⟨w, rfl, tail⟩ | ⟨w, eq, tail⟩
      · cases w with
        | nil =>
          refine ⟨0, ?_⟩
          rw [List.append_nil, long, count]
          omega
        | cons a w =>
          have tail' : joinWith [c] (u :: rest) = w ++ c :: z :: y :=
            (List.cons.inj (by simpa using tail)).2
          obtain ⟨j, blocks⟩ := ih (fun t mem => all t (List.mem_cons_of_mem _ mem)) tail'
          refine ⟨j + 1, ?_⟩
          have split : (j + 1 + 1) * (2 * n + 2) = (j + 1) * (2 * n + 2) + (2 * n + 2) :=
            Nat.succ_mul ..
          rw [List.length_append, List.length_cons, long, count, split, ← blocks]
          omega
      · rcases w with _ | ⟨a, _ | ⟨a', w⟩⟩
        · refine ⟨0, ?_⟩
          rw [← List.append_nil x, ← eq, long, count]
          omega
        · obtain ⟨rfl, tail⟩ := List.cons.inj tail
          have inside : tuple c o e items = x ++ [c] := eq
          have ends : [e] = [c] := by
            simp only [tuple] at inside
            exact (List.append_inj' inside rfl).2
          exact absurd (by simpa using ends) closing
        · have heads : c = a ∧ z = a' := by
            have h := List.cons.inj tail
            exact ⟨h.1, (List.cons.inj h.2).1⟩
          obtain ⟨rfl, rfl⟩ := heads
          exact absurd (item_of_tuple opening closing other each eq) plain

end

end TQDBProxy.ListCopies
