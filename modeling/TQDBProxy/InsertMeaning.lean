import TQDBProxy.InsertPreserved

/-! The rewriting of a batched INSERT preserves an accepted statement exactly when
its value list is what the code repeats or generates. -/

namespace TQDBProxy.WriteBatch

open SqlTokens ListCopies Strings

variable {d : Dialect} {query : GoString} {requests : List (List Value)}

theorem boundTuple_eq (params : List Value) :
    boundTuple params = tuple (.text [44]) (.text [40]) (.text [41])
      (params.map fun v => .bound (some v)) := by
  simp [boundTuple, tuple, Function.comp_def]

theorem placeholderIndex_placeholder (i : Nat) : placeholderIndex (placeholder true i) = i := by
  have digits : (Strconv.itoa i).all isDigit = true := by
    simpa using isDigit_itoa i
  simp [placeholder, placeholderIndex, Strconv.itoa_ne_nil i, digits, Strconv.digitsValue_itoa]

theorem isPlaceholder_generated (d : Dialect) {i : Nat} (positive : 0 < i) :
    isPlaceholder d (placeholder (d = .postgres) i) = true := by
  cases d with
  | mysql => rfl
  | postgres => simpa [isPlaceholder, placeholderIndex_placeholder] using Nat.ne_of_gt positive

theorem argPosition_generated (d : Dialect) (ordinal : Nat) :
    argPosition d ordinal (placeholder (d = .postgres) (ordinal + 1)) = ordinal := by
  cases d with
  | mysql => rfl
  | postgres => simp [argPosition, placeholderIndex_placeholder]

theorem resolve_generated (d : Dialect) (pre params post : List Value) :
    resolve d (pre ++ params ++ post) pre.length
      ((List.range' (pre.length + 1) params.length).map (placeholder (d = .postgres))) =
      params.map fun v => .bound (some v) := by
  induction params generalizing pre with
  | nil => rfl
  | cons v params ih =>
    have tail := ih (pre ++ [v])
    rw [List.length_append, List.length_singleton] at tail
    rw [List.length_cons, List.range'_succ, List.map_cons, resolve,
      if_pos (isPlaceholder_generated d (Nat.succ_pos _)), argPosition_generated]
    have args : pre ++ v :: params ++ post = pre ++ [v] ++ params ++ post := by simp
    have found : (pre ++ v :: params ++ post)[pre.length]? = some v := by simp
    rw [found, args, tail, List.map_cons]

theorem countP_generated (d : Dialect) {i : Nat} (positive : 0 < i) (n : Nat) :
    ((List.range' i n).map (placeholder (d = .postgres))).countP (isPlaceholder d) = n := by
  have all : ∀ t ∈ (List.range' i n).map (placeholder (d = .postgres)),
      isPlaceholder d t = true := by
    intro t mem
    obtain ⟨k, range, rfl⟩ := List.mem_map.mp mem
    have le := (List.mem_range'_1.mp range).1
    exact isPlaceholder_generated d (by omega)
  rw [List.countP_eq_length.mpr all, List.length_map, List.length_range']

theorem resolveEach_generated (d : Dialect) (pre : List Value) {n : Nat}
    (fit : ∀ params ∈ requests, params.length = n) :
    resolveEach d (pre ++ requests.flatten) pre.length
      (tupleTokens (d = .postgres) n (pre.length + 1) requests.length) =
      requests.map boundTuple := by
  induction requests generalizing pre with
  | nil => rfl
  | cons params rest ih =>
    have count := fit params (by simp)
    have tail := ih (pre ++ params) fun ps mem => fit ps (List.mem_cons_of_mem _ mem)
    have args : pre ++ (params :: rest).flatten = pre ++ params ++ rest.flatten := by simp
    rw [List.length_append, count] at tail
    rw [List.length_cons, tupleTokens, resolveEach, countP_tuple,
      countP_generated d (Nat.succ_pos _), resolve_tuple, args, ← count, resolve_generated,
      ← boundTuple_eq, List.map_cons, count, Nat.add_right_comm, tail]

theorem resolve_postgres (args : List Value) (i k : Nat) (toks : List GoString) :
    resolve .postgres args i toks = resolve .postgres args k toks := by
  induction toks generalizing i k with
  | nil => rfl
  | cons t rest ih =>
    rw [resolve, resolve]
    split_ifs
    · rw [ih (i + 1) (k + 1)]
      rfl
    · rw [ih i k]

theorem resolveEach_postgres (args : List Value) (i k : Nat) (parts : List (List GoString)) :
    resolveEach .postgres args i parts = resolveEach .postgres args k parts := by
  induction parts generalizing i k with
  | nil => rfl
  | cons part rest ih => rw [resolveEach, resolveEach, resolve_postgres args i k, ih]

def Resolved.isBound : Resolved → Bool
  | .bound _ => true
  | .text _ => false

theorem countP_isBound (d : Dialect) (args : List Value) (ordinal : Nat) (toks : List GoString) :
    (resolve d args ordinal toks).countP Resolved.isBound = toks.countP (isPlaceholder d) := by
  induction toks generalizing ordinal with
  | nil => rfl
  | cons t rest ih =>
    rw [resolve]
    split_ifs with found
    · rw [List.countP_cons_of_pos rfl, ih, List.countP_cons_of_pos found]
    · rw [List.countP_cons_of_neg (by simp [Resolved.isBound]), ih, List.countP_cons_of_neg found]

theorem contains_of_split {x y : GoString} {b : UInt8} (digit : isDigit b = true) :
    containsPostgresPlaceholder (x ++ 36 :: b :: y) = true := by
  have range : 48 ≤ b ∧ b ≤ 57 := by simpa [isDigit] using digit
  induction x with
  | nil => simp [containsPostgresPlaceholder, range]
  | cons a x ih =>
    cases x with
    | nil => simp [containsPostgresPlaceholder, range]
    | cons c x =>
      rw [List.cons_append] at ih
      rw [List.cons_append, List.cons_append, containsPostgresPlaceholder, ih, Bool.or_true]

theorem contains_of_arity
    (positive : 0 < arity .postgres (significant .postgres (tokens .postgres query))) :
    containsPostgresPlaceholder query = true := by
  obtain ⟨t, mem, index⟩ : ∃ t ∈ tokens .postgres query, placeholderIndex t ≠ 0 := by
    by_contra none
    push Not at none
    have none : ∀ t ∈ significant .postgres (tokens .postgres query), placeholderIndex t = 0 :=
      fun t mem => none t (mem_significant_postgres mem)
    have zero : arity .postgres (significant .postgres (tokens .postgres query)) = 0 := by
      simp only [arity]
      generalize significant .postgres (tokens .postgres query) = toks at none
      induction toks with
      | nil => rfl
      | cons t rest ih =>
        simp only [List.map_cons, List.foldr_cons, none t (by simp),
          ih fun u mem => none u (List.mem_cons_of_mem _ mem)]
        rfl
    omega
  obtain ⟨x, y, eq⟩ := tokens_infix .postgres query t mem
  unfold placeholderIndex at index
  split at index
  · rename_i digits
    split_ifs at index with shape
    · cases digits with
      | nil => exact absurd rfl shape.1
      | cons b digits =>
        have digit : isDigit b = true := by
          have all := shape.2
          simp at all
          exact all.1
        rw [← eq, List.append_assoc, List.cons_append, List.cons_append]
        exact contains_of_split digit
    · exact absurd rfl index
  · exact absurd rfl index

theorem itoa_inj {i k : Nat} (same : Strconv.itoa i = Strconv.itoa k) : i = k := by
  rw [← Strconv.digitsValue_itoa i, same, Strconv.digitsValue_itoa]

theorem plain_tuple (i n : Nat) :
    ∀ t ∈ tuple [44] [40] [41] ((List.range' i n).map (placeholder true)),
      isPlaceholder .mysql t = false := by
  refine List.countP_eq_zero.mp ?_ |> fun all t mem => by simpa using all t mem
  rw [countP_tuple, List.countP_eq_zero]
  intro t mem
  obtain ⟨k, -, rfl⟩ := List.mem_map.mp mem
  simp [isPlaceholder, placeholder]

theorem numbered_mysql {ordinal n : Nat} {args r1 r2 : List Value} {values : List GoString}
    (positive : 0 < n)
    (first : resolve .mysql r1 ordinal values = resolve .mysql args ordinal
      (tuple [44] [40] [41] ((List.range' 1 n).map (placeholder true))))
    {ordinal' : Nat}
    (second : resolve .mysql r2 ordinal values = resolve .mysql args ordinal'
      (tuple [44] [40] [41] ((List.range' (1 + n) n).map (placeholder true)))) : False := by
  rw [resolve_texts (plain_tuple 1 n)] at first
  obtain rfl := eq_of_resolve_texts first
  rw [resolve_texts (plain_tuple (1 + n) n), resolve_texts (plain_tuple 1 n)] at second
  have same := List.map_injective_iff.mpr (fun a b eq => Resolved.text.inj eq) second
  obtain ⟨n, rfl⟩ : ∃ k, n = k + 1 := ⟨n - 1, by omega⟩
  rw [List.range'_succ, List.range'_succ, List.map_cons, List.map_cons, tuple, tuple] at same
  have heads : placeholder true 1 = placeholder true (1 + (n + 1)) := by
    cases n with
    | zero => simpa [joinWith] using same
    | succ n =>
      rw [List.range'_succ, List.range'_succ] at same
      simp only [List.map_cons, joinWith, List.cons_append, List.cons.injEq] at same
      exact same.2.1
  have digits : Strconv.itoa 1 = Strconv.itoa (1 + (n + 1)) := by
    simpa [placeholder] using heads
  have bad := itoa_inj digits
  omega

theorem countP_before {before values : List GoString} {ordinal n : Nat} {params : List Value}
    {l : List Resolved} (whole : tokens .mysql query = before ++ values)
    (count : arity .mysql (significant .mysql (tokens .mysql query)) = n)
    (same : resolve .mysql params ordinal values = l) (full : l.countP Resolved.isBound = n) :
    before.countP (isPlaceholder .mysql) = 0 := by
  have inside := countP_isBound .mysql params ordinal values
  rw [same, full] at inside
  have few := countP_significant (d := .mysql) (tokens .mysql query)
  rw [arity] at count
  rw [count, whole, List.countP_append] at few
  omega

theorem countP_boundTuple (params : List Value) :
    (boundTuple params).countP Resolved.isBound = params.length := by
  have inner : (joinWith [Resolved.text [44]] (params.map fun v => [.bound (some v)])).countP
      Resolved.isBound = params.length := by
    induction params with
    | nil => rfl
    | cons v rest ih =>
      cases rest with
      | nil => rfl
      | cons w rest =>
        rw [List.map_cons, joinWith_cons (by simp), List.countP_append, List.countP_append, ih]
        simp [Resolved.isBound]
        omega
  rw [boundTuple, List.countP_append, List.countP_append, inner]
  simp [Resolved.isBound]

theorem tuples_preserved_iff {n N : Nat} (count : requests.length = N + 2) (positive : 0 < n)
    (fit : ∀ params ∈ requests, params.length = n)
    (width : arity d (significant d (tokens d query)) = n) :
    Preserved d query requests ↔ RewriteSafe d query requests := by
  obtain ⟨r1, r2, others, rfl⟩ : ∃ r1 r2 others, requests = r1 :: r2 :: others := by
    match requests, count with
    | r1 :: r2 :: others, _ => exact ⟨r1, r2, others, rfl⟩
  have head : ((r1 :: r2 :: others).headD []).length = n := fit r1 (by simp)
  have some : ¬ ((r1 :: r2 :: others).headD []).length = 0 := by omega
  have bindings (ordinal : Nat) (style : d = .mysql → ordinal = 0) :
      resolveEach d (r1 :: r2 :: others).flatten ordinal (tupleTokens (d = .postgres) n 1 (N + 2)) =
        (r1 :: r2 :: others).map boundTuple := by
    have from_start := resolveEach_generated d [] fit
    rw [List.nil_append, count] at from_start
    cases d with
    | mysql => rw [style rfl]; exact from_start
    | postgres => rw [resolveEach_postgres _ ordinal 0]; exact from_start
  constructor
  · intro preserved
    obtain ⟨before, values, after, text, args, middle, split, built, toks, same⟩ := preserved
    obtain ⟨cut, found, bound⟩ := multiRow_cut built
    rw [multiRow_of_cut found bound, if_neg some, head, count] at built
    obtain ⟨rfl, rfl⟩ := MultiRow.statement.inj built
    have parts := valueSplit_of_splitValues split
    obtain ⟨base, rfl, copies⟩ := tuples_forced (List.take_append_drop cut query).symm parts count
      positive toks same
    refine ⟨before, values, cut, split, found, bound, base, ?_⟩
    rw [if_neg some]
    have whole : tokens d query = before ++ values := by simpa using parts.whole
    have style : containsPostgresPlaceholder query = decide (d = .postgres) := by
      cases d with
      | postgres => exact contains_of_arity (by omega)
      | mysql =>
        by_contra wrong
        have numbered : containsPostgresPlaceholder query = true := by simpa using wrong
        rw [numbered, tupleTokens, tupleTokens, resolveEach, resolveEach, List.map_cons,
          List.map_cons] at copies
        have heads := List.cons.inj copies
        exact numbered_mysql positive heads.1 (List.cons.inj heads.2).1
    rw [style] at copies
    have ordinal : d = .mysql → before.countP (isPlaceholder d) = 0 := by
      rintro rfl
      rw [tupleTokens, resolveEach, List.map_cons] at copies
      refine countP_before whole width (List.cons.inj copies).1 ?_
      rw [countP_isBound, countP_tuple, countP_generated .mysql (Nat.succ_pos 0)]
    rw [bindings _ ordinal] at copies
    exact ⟨by simp [style], List.map_inj_left.mp copies⟩
  · intro safe
    obtain ⟨before, values, cut, split, found, bound, base, safe⟩ := safe
    rw [if_neg some] at safe
    have style : containsPostgresPlaceholder query = decide (d = .postgres) := by
      rw [Bool.eq_iff_iff, safe.1]
      simp
    have parts := valueSplit_of_splitValues split
    obtain ⟨init, t, eq, keyword⟩ := parts.keyword
    have closed := closed_of_letters (base.trans eq) (isKeyword_bytes keyword).1
    have whole : tokens d query = before ++ values := by simpa using parts.whole
    have ordinal : d = .mysql → before.countP (isPlaceholder d) = 0 := by
      rintro rfl
      refine countP_before whole width (safe.2 r1 (by simp)) ?_
      rw [countP_boundTuple, fit r1 (by simp)]
    refine ⟨before, values, [], _, _, joinWith [[44]] (tupleTokens (d = .postgres) n 1 (N + 2)),
      split,
      by rw [multiRow_of_cut found bound, if_neg some, head, count], ?_, ?_⟩
    · rw [tokens_tuples closed, style, base, List.append_nil]
    · rw [resolve_joinWith, bindings _ ordinal, List.map_congr_left safe.2]

end TQDBProxy.WriteBatch
