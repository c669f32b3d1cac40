import TQDBProxy.InsertTuples

/-! When the rewriting of a batched INSERT preserves the statement. With
parameters the generated tuples are compared with the copies of the value list
token by token; together with the case without parameters this decides the
question for every accepted text. -/

namespace TQDBProxy.WriteBatch

open SqlTokens ListCopies Strings

variable {d : Dialect} {query base rest : GoString} {before values after middle : List GoString}
  {requests : List (List Value)} {args : List Value} {isPostgres : Bool} {n ordinal : Nat}

theorem length_tokens_le (d : Dialect) (s t : GoString) :
    (tokens d s).length ≤ (tokens d (s ++ t)).length := by
  rcases List.eq_nil_or_concat' (tokens d s) with eq | ⟨init, u, eq⟩
  · simp [eq]
  · obtain ⟨u', more, grown, -⟩ := run_keeps (d := d) (lex_ok d s) eq t
    rw [tokens, tokens, lex_append, grown, ← tokens, eq]
    simp

theorem tokens_open (opened : (lex d base).mode.closed = false) (isPostgres : Bool)
    (numParams requests : Nat) :
    (tokens d (base ++ [32] ++
      joinWith [44, 32] (valueTuples isPostgres numParams 1 requests))).length =
      (tokens d base).length := by
  have some : (lex d base).toks ≠ [] := by
    rcases lex_ok d base with gap | some
    · rw [gap] at opened
      cases opened
    · exact some
  have still := quiet_valueTuples 32 isPostgres numParams requests 1
  rw [tokens, lex_append, lex_append]
  by_cases single : (lex d base).mode = .dashDash
  · rw [run_cons, step_dashes_blank single]
    change (run d ((lex d base).extend 32 .lineComment) _).toks.length = _
    rw [run_quiet (extendLast_ne_nil _) ⟨rfl, by simp [Lex.extend], tagged_of_tagFree rfl⟩
      (last_extend ..) still]
    exact length_extendLast some
  · obtain ⟨init, t, eq⟩ := (List.eq_nil_or_concat' _).resolve_left some
    obtain ⟨b, r, rfl, -⟩ := tokens_head d base t (by rw [tokens, eq]; simp)
    obtain ⟨front, prev, last⟩ := (List.eq_nil_or_concat' (b :: r)).resolve_left (by simp)
    have held : (lex d base).last = front ++ [prev] := by
      rw [Lex.last, eq, ← last]
      simp
    rw [← run_append, List.singleton_append]
    refine run_quiet some ⟨opened, single, lex_tagged d base⟩ held ?_
    rw [quiet, still]
    rfl

theorem tokens_tuples (closed : (lex d base).mode.closed = true) (numParams requests : Nat) :
    tokens d (base ++ [32] ++ joinWith [44, 32] (valueTuples isPostgres numParams 1 requests)) =
      tokens d base ++ joinWith [[44]] (tupleTokens isPostgres numParams 1 requests) := by
  rw [tokens, lex_append, lex_append, run_cons, step_space closed rfl]
  exact congrArg Lex.toks (run_valueTuples isPostgres numParams requests 1 (lex d base).toks)

theorem keyword_not_generated {t : GoString} (keyword : isKeyword (lit "VALUES") t = true)
    {numParams paramIndex requests : Nat} :
    t ∉ joinWith [[44]] (tupleTokens isPostgres numParams paramIndex requests) := by
  obtain ⟨letters, front, c, rfl, last⟩ := isKeyword_bytes keyword
  have plain (b : UInt8) (other : isLetter b = false) (u : GoString) : front ++ [c] ≠ b :: u := by
    intro eq
    have letter := letters b (by rw [eq]; simp)
    simp [other] at letter
  intro mem
  rcases mem_joinWith mem with comma | ⟨l, tuple_, mem⟩
  · exact plain 44 rfl [] (by simpa using comma)
  · obtain ⟨i, -, rfl⟩ := mem_tupleTokens tuple_
    rw [tuple, List.cons_append, List.mem_cons, List.mem_append] at mem
    rcases mem with eq | mem | mem
    · exact plain 40 rfl [] eq
    · rcases mem_joinWith mem with comma | ⟨l, single, mem⟩
      · exact plain 44 rfl [] (by simpa using comma)
      · obtain ⟨p, pmem, rfl⟩ := List.mem_map.mp single
        obtain ⟨k, -, rfl⟩ := List.mem_map.mp pmem
        have eq : front ++ [c] = placeholder isPostgres k := by simpa using mem
        cases isPostgres
        · exact plain 63 rfl [] eq
        · exact plain 36 rfl _ eq
    · exact plain 41 rfl [] (by simpa using mem)

theorem cut_within (text : query = base ++ rest)
    (split : ValueSplit d (tokens d query) before values after) {first last : List GoString}
    (count : first.length = values.length) {J : List GoString}
    (keyword : ∀ t ∈ J, isKeyword (lit "VALUES") t = false)
    (built : tokens d base ++ J = before ++ (first ++ [44] :: last) ++ after) :
    ∃ m m', tokens d base = before ++ m ∧ first = m ++ m' ∧
      J = m' ++ [44] :: (last ++ after) := by
  have built' : tokens d base ++ J = before ++ (first ++ [44] :: (last ++ after)) := by
    simpa using built
  -- the keyword is not among the generated tokens
  obtain ⟨m, cut, tail⟩ : ∃ m, tokens d base = before ++ m ∧
      first ++ [44] :: (last ++ after) = m ++ J := by
    rcases List.append_eq_append_iff.mp built' with ⟨z, eq, tail⟩ | found
    · obtain ⟨init, t, rfl, isValues⟩ := split.keyword
      rcases List.eq_nil_or_concat' z with rfl | ⟨z', y, rfl⟩
      · exact ⟨[], by simpa using eq.symm, by simpa using tail.symm⟩
      · have heads : init ++ [t] = (tokens d base ++ z') ++ [y] := by simpa using eq
        obtain rfl : t = y := by simpa using (List.append_inj' heads rfl).2
        have plain := keyword t (by rw [tail]; simp)
        simp [isValues] at plain
    · exact found
  refine ⟨m, ?_⟩
  rcases List.append_eq_append_iff.mp tail with ⟨z, rfl, eq⟩ | ⟨z, rfl, eq⟩
  · cases z with
    | nil => exact ⟨[], cut, by simp, by simpa using eq.symm⟩
    | cons y z =>
      -- a comma where the tokens after the value list start
      obtain ⟨rfl, -⟩ := List.cons.inj eq
      have whole := split.whole
      rcases List.eq_nil_or_concat' z with rfl | ⟨z', u, rfl⟩
      · obtain ⟨u', more, grown, longer⟩ := run_keeps (d := d) (lex_ok d base)
          (show tokens d base = (before ++ first) ++ [[44]] by simpa using cut) rest
        have found : values ++ after = first ++ u' :: more := by
          rw [text, tokens, lex_append, grown, List.append_assoc, List.append_assoc] at whole
          exact (List.append_cancel_left whole).symm
        obtain ⟨-, eq⟩ := List.append_inj found count.symm
        obtain ⟨r, rfl⟩ := longer
        exact absurd rfl (split.stop _ _ eq)
      · obtain ⟨u', more, grown, -⟩ := run_keeps (d := d) (lex_ok d base)
          (show tokens d base = (before ++ first ++ [44] :: z') ++ [u] by simpa using cut) rest
        have found : values ++ after = first ++ [44] :: (z' ++ u' :: more) := by
          rw [text, tokens, lex_append, grown, List.append_assoc, List.append_assoc,
            List.append_assoc] at whole
          exact (List.append_cancel_left whole).symm
        obtain ⟨-, eq⟩ := List.append_inj found count.symm
        exact absurd rfl (split.stop _ _ eq)
  · exact ⟨z, cut, rfl, eq⟩

theorem lengths_forced {N G V m j a x : Nat} (values_ : V = m + x) (block : x + 1 = (j + 1) * G)
    (total : x + 1 + (N + 1) * (V + 1) + a = (N + 2) * G) : m = 0 ∧ a = 0 ∧ x + 1 = G := by
  have larger : G ≤ x + 1 := by
    rw [block]
    exact Nat.le_mul_of_pos_left G (Nat.succ_pos j)
  have spread : (N + 1) * (V + 1) = (N + 1) * m + (N + 1) * (x + 1) := by
    rw [← Nat.mul_add, values_]
    rfl
  have blocks : (N + 1) * G ≤ (N + 1) * (x + 1) := Nat.mul_le_mul_left _ larger
  have share : m ≤ (N + 1) * m := Nat.le_mul_of_pos_left m (Nat.succ_pos N)
  have unfolded : (N + 2) * G = (N + 1) * G + G := Nat.succ_mul ..
  omega

theorem tuples_forced (text : query = base ++ rest)
    (split : ValueSplit d (tokens d query) before values after) {N : Nat}
    (count : requests.length = N + 2) (positive : 0 < n)
    (built : tokens d (base ++ [32] ++ joinWith [44, 32] (valueTuples isPostgres n 1 (N + 2))) =
      before ++ middle ++ after)
    (same : resolve d args ordinal middle = joinWith [.text [44]]
      (requests.map fun params => resolve d params ordinal values)) :
    tokens d base = before ∧ after = [] ∧
      requests.map (fun params => resolve d params ordinal values) =
        resolveEach d args ordinal (tupleTokens isPostgres n 1 (N + 2)) := by
  have copyLength : ∀ l ∈ requests.map fun params => resolve d params ordinal values,
      l.length = values.length := by
    intro l mem
    obtain ⟨params, -, rfl⟩ := List.mem_map.mp mem
    exact length_resolve ..
  have someCopies : (requests.map fun params => resolve d params ordinal values) ≠ [] := by
    intro eq
    have zero := congrArg List.length eq
    simp [count] at zero
  have middleLength : middle.length + 1 = (N + 2) * (values.length + 1) := by
    rw [← length_resolve d args ordinal middle, same, length_joinWith someCopies copyLength,
      List.length_map, count]
  have spread : (N + 2) * (values.length + 1) =
      (N + 1) * (values.length + 1) + (values.length + 1) := Nat.succ_mul ..
  have share : values.length + 1 ≤ (N + 1) * (values.length + 1) :=
    Nat.le_mul_of_pos_left _ (Nat.succ_pos N)
  have closed : (lex d base).mode.closed = true := by
    by_contra notClosed
    have short := tokens_open (by simpa using notClosed) isPostgres n (N + 2)
    have le := length_tokens_le d base rest
    rw [← text, split.whole] at le
    rw [built] at short
    simp only [List.length_append] at short le
    omega
  rw [tokens_tuples closed] at built
  obtain ⟨r1, r2, others, rfl⟩ : ∃ r1 r2 others, requests = r1 :: r2 :: others := by
    match requests, count with
    | r1 :: r2 :: others, _ => exact ⟨r1, r2, others, rfl⟩
  have same' : resolve d args ordinal middle = resolve d r1 ordinal values ++ .text [44] ::
      joinWith [.text [44]] ((r2 :: others).map fun params => resolve d params ordinal values) := by
    rw [same]
    simp [joinWith]
  obtain ⟨first, last, rfl, firstEq, lastEq⟩ := resolve_split same'
  have firstLength : first.length = values.length := by
    rw [← length_resolve d args ordinal first, firstEq, length_resolve]
  obtain ⟨m, m', cut, rfl, tuples⟩ := cut_within text split firstLength
    (fun t mem => by
      by_contra isValues
      exact keyword_not_generated (by simpa using isValues) mem) built
  have tupleLength : ∀ l ∈ tupleTokens isPostgres n 1 (N + 2), l.length = 2 * n + 1 := by
    intro l mem
    obtain ⟨i, -, rfl⟩ := mem_tupleTokens mem
    rw [length_tuple (by simpa using Nat.ne_of_gt positive)]
    simp
  have total := length_joinWith (c := [44]) (by simp [tupleTokens]) tupleLength
  rw [length_tupleTokens, tuples, show 2 * n + 1 + 1 = 2 * n + 2 from rfl] at total
  -- the second copy starts where no generated item can stand
  obtain ⟨t, vs, rfl⟩ : ∃ t vs, values = t :: vs := by
    cases values with
    | cons t vs => exact ⟨t, vs, rfl⟩
    | nil =>
      have empty : m' = [] := by
        simp at firstLength
        exact firstLength.2
      rw [empty, tupleTokens, joinWith_cons (by simp [tupleTokens]), tuple] at tuples
      simp at tuples
  obtain ⟨headEq, plain⟩ := listHead_resolve (d := d) (split.start t vs rfl) r2 ordinal vs
  obtain ⟨tail, second⟩ : ∃ tail, joinWith [.text [44]]
      ((r2 :: others).map fun params => resolve d params ordinal (t :: vs)) = .text t :: tail := by
    rw [List.map_cons, headEq]
    cases others.map fun params => resolve d params ordinal (t :: vs) with
    | nil => exact ⟨_, rfl⟩
    | cons l ls => exact ⟨_, rfl⟩
  have resolved : joinWith [.text [44]] (resolveEach d args (ordinal + m.countP (isPlaceholder d))
      (tupleTokens isPostgres n 1 (N + 2))) =
      resolve d args (ordinal + m.countP (isPlaceholder d)) m' ++ .text [44] :: .text t ::
        (tail ++ resolve d args (ordinal + (m ++ m').countP (isPlaceholder d) +
          last.countP (isPlaceholder d)) after) := by
    rw [← resolve_joinWith, tuples, resolve_append, resolve_plain (isPlaceholder_comma d),
      Nat.add_assoc, ← List.countP_append, resolve_append, lastEq, second]
    rfl
  obtain ⟨j, block⟩ := boundary generated positive (by simp) (by simp)
    (fun x item eq => by
      rcases item with ⟨v, rfl⟩ | ⟨u, rfl, head⟩
      · cases eq
      · obtain rfl := Resolved.text.inj eq
        simp at head) generated_tuples plain resolved
  rw [length_resolve] at block
  simp only [List.length_append, List.length_cons] at total middleLength firstLength
  simp only [List.length_cons] at spread share
  have forced : m.length = 0 ∧ after.length = 0 ∧ m'.length + 1 = 2 * n + 2 :=
    lengths_forced (N := N) (V := vs.length + 1) (by omega) block (by omega)
  obtain ⟨noCut, noAfter, width⟩ := forced
  obtain rfl := List.length_eq_zero_iff.mp noCut
  obtain rfl := List.length_eq_zero_iff.mp noAfter
  refine ⟨by simpa using cut, rfl, ?_⟩
  have generatedLength : ∀ l ∈ resolveEach d args ordinal (tupleTokens isPostgres n 1 (N + 2)),
      l.length = 2 * n + 1 := by
    intro l mem
    obtain ⟨items, itemCount, -, rfl⟩ := generated_tuples l mem
    rw [length_tuple (List.ne_nil_of_length_pos (by omega)), itemCount]
  refine joinWith_inj (c := .text [44]) ?_ (fun l mem => ?_) generatedLength ?_
  · rw [length_resolveEach, length_tupleTokens, List.length_map, count]
  · rw [copyLength l mem, List.length_cons]
    simp at firstLength
    omega
  · rw [← same, ← resolve_joinWith, tuples]
    simp

end TQDBProxy.WriteBatch
