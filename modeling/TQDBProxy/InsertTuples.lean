import TQDBProxy.InsertClauses

/-! Rewriting with parameters. The code generates one tuple of placeholders per
request. The result has the value list repeated exactly when the value list is
one such tuple: the separators of the generated tuples leave no other reading. -/

namespace TQDBProxy.WriteBatch

open SqlTokens ListCopies Strings

variable {d : Dialect} {query : GoString}

def tupleTokens (isPostgres : Bool) (numParams : Nat) : Nat → Nat → List (List GoString)
  | _, 0 => []
  | paramIndex, requests + 1 =>
    tuple [44] [40] [41] ((List.range' paramIndex numParams).map (placeholder isPostgres)) ::
      tupleTokens isPostgres numParams (paramIndex + numParams) requests

theorem length_tupleTokens (isPostgres : Bool) (numParams paramIndex requests : Nat) :
    (tupleTokens isPostgres numParams paramIndex requests).length = requests := by
  induction requests generalizing paramIndex with
  | zero => rfl
  | succ requests ih => rw [tupleTokens, List.length_cons, ih]

theorem mem_tupleTokens {isPostgres : Bool} {numParams paramIndex requests : Nat}
    {t : List GoString} (mem : t ∈ tupleTokens isPostgres numParams paramIndex requests) :
    ∃ i, paramIndex ≤ i ∧
      t = tuple [44] [40] [41] ((List.range' i numParams).map (placeholder isPostgres)) := by
  induction requests generalizing paramIndex with
  | zero => simp [tupleTokens] at mem
  | succ requests ih =>
    rcases List.mem_cons.mp mem with rfl | mem
    · exact ⟨paramIndex, le_rfl, rfl⟩
    · obtain ⟨i, le, eq⟩ := ih mem
      exact ⟨i, by omega, eq⟩

theorem isDigit_itoa (n : Nat) : ∀ b ∈ Strconv.itoa n, isDigit b = true := by
  intro b mem
  have range := Strconv.itoa_digits n b mem
  simp [isDigit, UInt8.le_iff_toNat_le, range]

theorem wordByte_of_isDigit {b : UInt8} (digit : isDigit b = true) : wordByte b = true := by
  simp [wordByte, digit]

theorem run_digits {t : GoString} {mode : Mode} (mode_ : mode = .word ∨ mode = .param)
    {s : GoString} (digits : ∀ b ∈ s, isDigit b = true) :
    run d ⟨mode, [t]⟩ s = ⟨mode, [t ++ s]⟩ := by
  induction s generalizing t with
  | nil => simp [run]
  | cons b rest ih =>
    have digit := digits b (by simp)
    have stepped : step d ⟨mode, [t]⟩ b = ⟨mode, [t ++ [b]]⟩ := by
      rcases mode_ with rfl | rfl
      · simp [step, stepIn, wordByte_of_isDigit digit, Lex.extend, extendLast]
      · simp [step, stepIn, digit, Lex.extend, extendLast]
    rw [run_cons, stepped, ih fun c mem => digits c (List.mem_cons_of_mem _ mem)]
    simp

theorem lex_placeholder (d : Dialect) (isPostgres : Bool) (i : Nat) :
    ∃ mode, lex d (placeholder isPostgres i) = ⟨mode, [placeholder isPostgres i]⟩ ∧
      mode.closed = true := by
  cases isPostgres with
  | false => exact ⟨.gap, by cases d <;> rfl, rfl⟩
  | true =>
    cases digits : Strconv.itoa i with
    | nil => exact absurd digits (Strconv.itoa_ne_nil i)
    | cons b rest =>
      have all := isDigit_itoa i
      rw [digits] at all
      have digit : isDigit b = true := all b (by simp)
      have others : ∀ c ∈ rest, isDigit c = true := fun c mem => all c (List.mem_cons_of_mem _ mem)
      simp only [placeholder, digits, if_true]
      cases d with
      | mysql =>
        refine ⟨.word, ?_, rfl⟩
        change run .mysql ⟨.word, [[36]]⟩ (b :: rest) = _
        exact run_digits (.inl rfl) all
      | postgres =>
        refine ⟨.param, ?_, rfl⟩
        change run .postgres ⟨.dollarTag, [[36]]⟩ (b :: rest) = _
        have ne : b ≠ 36 := by
          intro eq
          rw [eq] at digit
          exact absurd digit (by decide)
        have stepped : step .postgres ⟨.dollarTag, [[36]]⟩ b = ⟨.param, [[36, b]]⟩ := by
          simp [step, stepIn, ne, Lex.last, digit, Lex.extend, extendLast]
        rw [run_cons, stepped, run_digits (.inr rfl) others]
        simp

theorem step_solo' {mode : Mode} {ts : List GoString} {b : UInt8} (closed : mode.closed = true)
    (alone : solo b) : step d ⟨mode, ts⟩ b = ⟨.gap, ts ++ [[b]]⟩ := step_solo closed alone

theorem run_pieces {pieces : List GoString}
    (single : ∀ p ∈ pieces, ∃ mode, lex d p = ⟨mode, [p]⟩ ∧ mode.closed = true)
    (ts : List GoString) :
    run d ⟨.gap, ts⟩ (joinWith [44] pieces ++ [41]) =
      ⟨.gap, ts ++ (joinWith [[44]] (pieces.map fun p => [p]) ++ [[41]])⟩ := by
  induction pieces generalizing ts with
  | nil => rw [joinWith, List.nil_append, run_cons, step_solo' rfl (.inr (.inl rfl))]; rfl
  | cons p rest ih =>
    obtain ⟨mode, eq, closed⟩ := single p (by simp)
    have first : run d ⟨.gap, ts⟩ p = ⟨mode, ts ++ [p]⟩ := by
      rw [run_gap, tokens, eq]
    cases rest with
    | nil =>
      change run d ⟨.gap, ts⟩ (p ++ [41]) = ⟨.gap, ts ++ ([p] ++ [[41]])⟩
      rw [run_append, first, run_cons, step_solo' closed (.inr (.inl rfl))]
      simp [run]
    | cons p' rest =>
      have tail := ih (fun q mem => single q (List.mem_cons_of_mem _ mem)) (ts ++ [p] ++ [[44]])
      rw [joinWith_cons (by simp), List.append_assoc, List.append_assoc, run_append, first,
        List.singleton_append, run_cons, step_solo' closed (.inr (.inr (.inl rfl))), tail]
      simp [joinWith]

/-- The tokens of a tuple are code when those of its items are. -/
theorem heads_tuple {items : List GoString}
    (all : ∀ t ∈ items, ∃ b u, t = b :: u ∧ b ∉ ([35, 45, 47] : GoString)) :
    ∀ t ∈ tuple [44] [40] [41] items, ∃ b u, t = b :: u ∧ b ∉ ([35, 45, 47] : GoString) := by
  intro t mem
  simp only [tuple, List.mem_cons, List.cons_append, List.mem_append, List.not_mem_nil,
    or_false] at mem
  rcases mem with rfl | mem | rfl
  · exact ⟨40, [], rfl, by decide⟩
  · rcases mem_joinWith mem with mem | ⟨l, mem, item⟩
    · exact ⟨44, [], by simpa using mem, by decide⟩
    · obtain ⟨p, mark, rfl⟩ := List.mem_map.mp mem
      exact List.mem_singleton.mp item ▸ all p mark
  · exact ⟨41, [], rfl, by decide⟩

theorem heads_placeholder (isPostgres : Bool) (i : Nat) :
    ∃ b u, placeholder isPostgres i = b :: u ∧ b ∉ ([35, 45, 47] : GoString) := by
  cases isPostgres
  · exact ⟨63, [], rfl, by decide⟩
  · exact ⟨36, _, rfl, by decide⟩

theorem run_valueTuple (isPostgres : Bool) (numParams i : Nat) (ts : List GoString) :
    run d ⟨.gap, ts⟩ (valueTuple isPostgres numParams i) =
      ⟨.gap, ts ++ tuple [44] [40] [41]
        ((List.range' i numParams).map (placeholder isPostgres))⟩ := by
  have pieces : ∀ p ∈ (List.range' i numParams).map (placeholder isPostgres),
      ∃ mode, lex d p = ⟨mode, [p]⟩ ∧ mode.closed = true := by
    intro p mem
    obtain ⟨k, -, rfl⟩ := List.mem_map.mp mem
    exact lex_placeholder d isPostgres k
  rw [valueTuple, List.append_assoc, List.singleton_append, run_cons, step_solo' rfl (.inl rfl),
    run_pieces pieces, tuple]
  simp

theorem run_valueTuples (isPostgres : Bool) (numParams requests i : Nat) (ts : List GoString) :
    run d ⟨.gap, ts⟩ (joinWith [44, 32] (valueTuples isPostgres numParams i requests)) =
      ⟨.gap, ts ++ joinWith [[44]] (tupleTokens isPostgres numParams i requests)⟩ := by
  induction requests generalizing i ts with
  | zero => simp [valueTuples, tupleTokens, joinWith, run]
  | succ requests ih =>
    rw [valueTuples, tupleTokens]
    cases requests with
    | zero => exact run_valueTuple isPostgres numParams i ts
    | succ requests =>
      have separator (ts : List GoString) : run d ⟨.gap, ts⟩ [44, 32] = ⟨.gap, ts ++ [[44]]⟩ := by
        rw [run_cons, step_solo' rfl (.inr (.inr (.inl rfl))), run_cons, step_space rfl rfl]
        rfl
      rw [joinWith_cons (by simp [valueTuples]), run_append, run_append, run_valueTuple, separator,
        ih, joinWith_cons (by simp [tupleTokens])]
      simp

theorem quiet_comma (prev : UInt8) (s t : GoString) :
    quiet prev (s ++ 44 :: t) = (quiet prev s && quiet 44 t) := by
  rw [quiet_append, quiet]
  rfl

theorem quiet_digits {prev : UInt8} {s : GoString} (digits : ∀ b ∈ s, isDigit b = true) :
    quiet prev s = true := by
  induction s generalizing prev with
  | nil => rfl
  | cons b rest ih =>
    rw [quiet, ih fun c mem => digits c (List.mem_cons_of_mem _ mem)]
    simp [calm, digits b (by simp)]

theorem quiet_placeholder {prev : UInt8} (mark : prev = 40 ∨ prev = 44) (isPostgres : Bool)
    (i : Nat) : quiet prev (placeholder isPostgres i) = true := by
  cases isPostgres with
  | false => rfl
  | true =>
    simp only [placeholder, if_true, quiet, quiet_digits (isDigit_itoa i), Bool.and_true]
    rcases mark with rfl | rfl <;> rfl

theorem quiet_pieces {prev : UInt8} (mark : prev = 40 ∨ prev = 44) {pieces : List GoString}
    (still : ∀ p ∈ pieces, ∀ prev, prev = 40 ∨ prev = 44 → quiet prev p = true) :
    quiet prev (joinWith [44] pieces) = true := by
  induction pieces generalizing prev with
  | nil => rfl
  | cons p rest ih =>
    have first := still p (by simp) prev mark
    cases rest with
    | nil => exact first
    | cons p' rest =>
      have tail := ih (.inr rfl) fun q mem => still q (List.mem_cons_of_mem _ mem)
      rw [joinWith_cons (by simp), List.append_assoc, List.singleton_append, quiet_comma, first,
        tail]
      rfl

theorem quiet_valueTuple (prev : UInt8) (isPostgres : Bool) (numParams i : Nat) :
    quiet prev (valueTuple isPostgres numParams i) = true := by
  have inner : quiet 40 (joinWith [44]
      ((List.range' i numParams).map (placeholder isPostgres))) = true := by
    refine quiet_pieces (.inl rfl) fun p mem prev mark => ?_
    obtain ⟨k, -, rfl⟩ := List.mem_map.mp mem
    exact quiet_placeholder mark isPostgres k
  rw [valueTuple, List.append_assoc, List.singleton_append, quiet, quiet_append, inner]
  rfl

theorem quiet_valueTuples (prev : UInt8) (isPostgres : Bool) (numParams requests i : Nat) :
    quiet prev (joinWith [44, 32] (valueTuples isPostgres numParams i requests)) = true := by
  induction requests generalizing prev i with
  | zero => rfl
  | succ requests ih =>
    rw [valueTuples]
    cases requests with
    | zero => exact quiet_valueTuple prev isPostgres numParams i
    | succ requests =>
      rw [joinWith_cons (by simp [valueTuples]), List.append_assoc, List.cons_append,
        List.singleton_append, quiet_comma, quiet_valueTuple, quiet, ih]
      rfl

theorem resolve_append (d : Dialect) (args : List Value) (ordinal : Nat) (s t : List GoString) :
    resolve d args ordinal (s ++ t) =
      resolve d args ordinal s ++ resolve d args (ordinal + s.countP (isPlaceholder d)) t := by
  induction s generalizing ordinal with
  | nil => simp [resolve]
  | cons u rest ih =>
    rw [List.cons_append, resolve, resolve]
    split_ifs with found
    · rw [ih, List.countP_cons_of_pos found, List.cons_append,
        show ordinal + 1 + rest.countP (isPlaceholder d) = ordinal +
          (rest.countP (isPlaceholder d) + 1)
        by omega]
    · rw [ih, List.countP_cons_of_neg found, List.cons_append]

theorem length_resolve (d : Dialect) (args : List Value) (ordinal : Nat) (toks : List GoString) :
    (resolve d args ordinal toks).length = toks.length := by
  induction toks generalizing ordinal with
  | nil => rfl
  | cons t rest ih =>
    rw [resolve]
    split_ifs <;> rw [List.length_cons, ih, List.length_cons]

theorem resolve_split {args : List Value} {ordinal : Nat} {toks : List GoString} {u : GoString}
    {left right : List Resolved} (same : resolve d args ordinal toks = left ++ .text u :: right) :
    ∃ s t, toks = s ++ u :: t ∧ resolve d args ordinal s = left ∧
      resolve d args (ordinal + s.countP (isPlaceholder d)) t = right := by
  induction toks generalizing ordinal left with
  | nil => simp [resolve] at same
  | cons t rest ih =>
    rw [resolve] at same
    split_ifs at same with found
    · cases left with
      | nil => simp at same
      | cons x left =>
        obtain ⟨rfl, tail⟩ := List.cons.inj same
        obtain ⟨s, r, rfl, first, last⟩ := ih tail
        refine ⟨t :: s, r, rfl, ?_, ?_⟩
        · rw [resolve, if_pos found, first]
        · rw [List.countP_cons_of_pos found, ← last]
          congr 1
          omega
    · cases left with
      | nil =>
        obtain ⟨eq, tail⟩ := List.cons.inj same
        obtain rfl := Resolved.text.inj eq
        exact ⟨[], rest, rfl, rfl, tail⟩
      | cons x left =>
        obtain ⟨rfl, tail⟩ := List.cons.inj same
        obtain ⟨s, r, rfl, first, last⟩ := ih tail
        refine ⟨t :: s, r, rfl, ?_, ?_⟩
        · rw [resolve, if_neg found, first]
        · rw [List.countP_cons_of_neg found]
          exact last

def resolveEach (d : Dialect) (args : List Value) :
    Nat → List (List GoString) → List (List Resolved)
  | _, [] => []
  | ordinal, part :: rest =>
    resolve d args ordinal part ::
      resolveEach d args (ordinal + part.countP (isPlaceholder d)) rest

theorem isPlaceholder_comma (d : Dialect) : isPlaceholder d [44] = false := by
  cases d <;> rfl

theorem countP_tuple (d : Dialect) (items : List GoString) :
    (tuple [44] [40] [41] items).countP (isPlaceholder d) = items.countP (isPlaceholder d) := by
  have brackets : isPlaceholder d [40] = false ∧ isPlaceholder d [41] = false := by
    cases d <;> exact ⟨rfl, rfl⟩
  have inner : (joinWith [[44]] (items.map fun t => [t])).countP (isPlaceholder d) =
      items.countP (isPlaceholder d) := by
    induction items with
    | nil => rfl
    | cons t rest ih =>
      cases rest with
      | nil => rfl
      | cons u rest =>
        rw [List.map_cons, joinWith_cons (by simp), List.countP_append, List.countP_append, ih,
          List.countP_cons (a := t)]
        simp [isPlaceholder_comma, List.countP_cons]
        omega
  simp [tuple, brackets, inner]

theorem resolve_joinWith (d : Dialect) (args : List Value) (ordinal : Nat)
    (parts : List (List GoString)) :
    resolve d args ordinal (joinWith [[44]] parts) =
      joinWith [.text [44]] (resolveEach d args ordinal parts) := by
  induction parts generalizing ordinal with
  | nil => rfl
  | cons part rest ih =>
    cases rest with
    | nil => rfl
    | cons next rest =>
      have tail := ih (ordinal + part.countP (isPlaceholder d))
      rw [joinWith, List.append_assoc, resolve_append, List.singleton_append,
        resolve_plain (isPlaceholder_comma d), tail]
      simp [resolveEach, joinWith]

theorem resolveEach_singles (d : Dialect) (args : List Value) (ordinal : Nat)
    (items : List GoString) :
    resolveEach d args ordinal (items.map fun t => [t]) =
      (resolve d args ordinal items).map fun x => [x] := by
  induction items generalizing ordinal with
  | nil => rfl
  | cons t rest ih =>
    rw [List.map_cons, resolveEach, ih, resolve, resolve]
    split_ifs with found
    · simp [found, resolve]
    · simp [found, resolve]

theorem resolve_tuple (d : Dialect) (args : List Value) (ordinal : Nat) (items : List GoString) :
    resolve d args ordinal (tuple [44] [40] [41] items) =
      tuple (.text [44]) (.text [40]) (.text [41]) (resolve d args ordinal items) := by
  have opening : isPlaceholder d [40] = false := by cases d <;> rfl
  have closing : isPlaceholder d [41] = false := by cases d <;> rfl
  rw [tuple, List.cons_append, resolve_plain opening, resolve_append, resolve_joinWith,
    resolveEach_singles, resolve_plain closing, tuple]
  rfl

def generated (x : Resolved) : Prop :=
  (∃ value, x = .bound value) ∨ ∃ t, x = .text t ∧ (t.head? = some 63 ∨ t.head? = some 36)

theorem generated_resolve {args : List Value} {ordinal : Nat} {items : List GoString}
    (heads : ∀ t ∈ items, t.head? = some 63 ∨ t.head? = some 36) :
    ∀ x ∈ resolve d args ordinal items, generated x := by
  induction items generalizing ordinal with
  | nil => simp [resolve]
  | cons t rest ih =>
    have tail : ∀ u ∈ rest, u.head? = some 63 ∨ u.head? = some 36 := fun u mem =>
      heads u (List.mem_cons_of_mem _ mem)
    intro x mem
    rw [resolve] at mem
    split_ifs at mem
    · rcases List.mem_cons.mp mem with rfl | mem
      · exact .inl ⟨_, rfl⟩
      · exact ih tail x mem
    · rcases List.mem_cons.mp mem with rfl | mem
      · exact .inr ⟨t, rfl, heads t (by simp)⟩
      · exact ih tail x mem

theorem generated_tuples {args : List Value} {isPostgres : Bool}
    {numParams paramIndex requests ordinal : Nat} :
    ∀ l ∈ resolveEach d args ordinal (tupleTokens isPostgres numParams paramIndex requests),
      ∃ items, items.length = numParams ∧ (∀ x ∈ items, generated x) ∧
        l = tuple (.text [44]) (.text [40]) (.text [41]) items := by
  induction requests generalizing paramIndex ordinal with
  | zero => simp [tupleTokens, resolveEach]
  | succ requests ih =>
    intro l mem
    rcases List.mem_cons.mp mem with rfl | mem
    · refine ⟨_, ?_, ?_, resolve_tuple ..⟩
      · rw [length_resolve, List.length_map, List.length_range']
      · refine generated_resolve fun t tmem => ?_
        obtain ⟨i, -, rfl⟩ := List.mem_map.mp tmem
        cases isPostgres
        · exact .inl rfl
        · exact .inr rfl
    · exact ih l mem

theorem length_resolveEach (d : Dialect) (args : List Value) (ordinal : Nat)
    (parts : List (List GoString)) : (resolveEach d args ordinal parts).length = parts.length := by
  induction parts generalizing ordinal with
  | nil => rfl
  | cons part rest ih => rw [resolveEach, List.length_cons, ih, List.length_cons]

theorem listHead_resolve {t : GoString} (head : listHead d t) (args : List Value) (ordinal : Nat)
    (rest : List GoString) :
    resolve d args ordinal (t :: rest) = .text t :: resolve d args ordinal rest ∧
      ¬ generated (.text t) := by
  have first : t.head? ≠ some 63 ∧ t.head? ≠ some 36 := by
    rcases head with head | head | comment
    · simp [head]
    · simp [head]
    · cases t with
      | nil => simp
      | cons b t =>
        have mark : b ∈ ([35, 45, 47] : GoString) := by
          by_contra other
          rw [(pieces_of_head other t).2] at comment
          cases comment
        constructor
        all_goals
          intro head
          obtain rfl := Option.some.inj head
          exact absurd mark (by decide)
  have plain : isPlaceholder d t = false := by
    cases d with
    | mysql =>
      have ne : t ≠ [63] := by
        intro eq
        simp [eq] at first
      simpa [isPlaceholder] using ne
    | postgres =>
      have zero : placeholderIndex t = 0 := by
        unfold placeholderIndex
        split
        · simp at first
        · rfl
      simp [isPlaceholder, zero]
  refine ⟨resolve_plain plain, ?_⟩
  intro bad
  rcases bad with ⟨value, eq⟩ | ⟨u, eq, heads⟩
  · cases eq
  · obtain rfl := Resolved.text.inj eq
    rcases heads with head | head
    · exact first.1 head
    · exact first.2 head

end TQDBProxy.WriteBatch
