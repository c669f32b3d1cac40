import TQDBProxy.DeleteRewrite

/-! The combined DELETE of a batch deletes what its requests would delete exactly when
each of them is one equality and the code keeps all that stands before its sign. -/

namespace TQDBProxy.WriteBatch

open SqlTokens ListCopies Strings

variable {d : Dialect} {kept : GoString} {n : Nat}

def inList (n : Nat) : GoString := lit " IN (" ++ joinWith [44] (List.replicate n [63]) ++ lit ")"

def inTokens (n : Nat) : List GoString := lit "IN" :: tuple [44] [40] [41] (List.replicate n [63])

theorem batchedDelete_iff {b : Batch} {text : GoString} {args : List Value} :
    batchedDelete b = some (text, args) ↔ ∃ kept, keptText b.first.query = some kept ∧
      b.paramLists.mapM List.head? = some args ∧ text = kept ++ inList b.requests.length := by
  have marks :
      b.requests.map (fun _ => [63]) = List.replicate b.requests.length ([63] : GoString) :=
    List.map_const ..
  simp only [batchedDelete, keptText, inList, marks, Option.bind_eq_bind, Option.bind_eq_some_iff,
    Option.some.injEq, Prod.mk.injEq]
  constructor
  · rintro ⟨cut, found, clause, after, front, before, args, params, rfl, rfl⟩
    exact ⟨_, ⟨cut, found, clause, after, front, before, rfl⟩, params, by simp⟩
  · rintro ⟨kept, ⟨cut, found, clause, after, front, before, rfl⟩, params, rfl⟩
    exact ⟨cut, found, clause, after, front, before, args, params, by simp, rfl⟩

theorem inList_eq (n : Nat) :
    inList n = 32 :: (lit "IN (" ++ (joinWith [44] (List.replicate n [63]) ++ [41])) := by
  simp [inList, show lit " IN (" = 32 :: lit "IN (" by decide, show lit ")" = [41] by decide]

theorem inert_inList (n : Nat) :
    ∀ b ∈ lit "IN (" ++ (joinWith [44] (List.replicate n [63]) ++ [41]), inert b = true := by
  intro b mem
  rcases List.mem_append.mp mem with mem | mem
  · exact List.all_eq_true.mp (show (lit "IN (").all inert = true by decide) b mem
  rcases List.mem_append.mp mem with mem | mem
  · rcases mem_joinWith mem with mem | ⟨mark, item, mem⟩
    · obtain rfl : b = 44 := by simpa using mem
      rfl
    · obtain ⟨-, rfl⟩ := List.mem_replicate.mp item
      obtain rfl : b = 63 := by simpa using mem
      rfl
  · obtain rfl : b = 41 := by simpa using mem
    rfl

theorem lex_inList (closed : (lex d kept).mode.closed = true) (n : Nat) :
    lex d (kept ++ inList n) = ⟨.gap, tokens d kept ++ inTokens n⟩ := by
  have opening : lex d (lit "IN (") = ⟨.gap, [lit "IN", [40]]⟩ := by cases d <;> decide
  have piece : ∀ p ∈ List.replicate n ([63] : GoString),
      ∃ mode, lex d p = ⟨mode, [p]⟩ ∧ mode.closed = true := by
    intro p mem
    obtain ⟨-, rfl⟩ := List.mem_replicate.mp mem
    exact ⟨.gap, by cases d <;> rfl, rfl⟩
  rw [lex_append, inList_eq, run_cons, step_space closed rfl, run_append, run_gap, tokens, opening,
    run_pieces piece]
  simp [tokens, inTokens, tuple]

theorem significant_inTokens (n : Nat) : significant d (inTokens n) = inTokens n := by
  refine significant_of_heads (List.forall_mem_cons.mpr ⟨?_, heads_tuple fun t mem => ?_⟩)
  · exact ⟨73, [78], by decide, by decide⟩
  · exact ⟨63, [], (List.mem_replicate.mp mem).2, by decide⟩

theorem body_closed (closed : (lex d kept).mode.closed = true) (n : Nat) :
    body d (kept ++ inList n) = code d kept ++ inTokens n := by
  have lexed := lex_inList closed n
  have read : code d (kept ++ inList n) = code d kept ++ inTokens n := by
    rw [code_closed (by rw [lexed]; rfl), code_closed closed, tokens, lexed, significant_append,
      significant_inTokens]
  rw [body, read, inTokens, tuple, ← List.cons_append, ← List.append_assoc,
    List.rdropWhile_concat_neg _ _ _ (by decide)]

theorem not_mem_marks {marks : List GoString} (other : [40] ∉ marks) :
    [40] ∉ joinWith [[44]] (marks.map fun p => [p]) ++ [[41]] := by
  intro mem
  rcases List.mem_append.mp mem with mem | mem
  · rcases mem_joinWith mem with mem | ⟨l, item, mem⟩
    · exact absurd mem (by decide)
    · obtain ⟨p, mark, rfl⟩ := List.mem_map.mp item
      obtain rfl : [40] = p := by simpa using mem
      exact other mark
  · exact absurd mem (by decide)

theorem selects_of_deletion {args : List Value} {D : Deletion}
    (read : deletion d (kept ++ inList (n + 1)) args = some D) :
    d = .mysql ∧ (lex d kept).mode.closed = true ∧
      Selects d D.base D.column (code d kept) := by
  obtain ⟨base, column, c⟩ := D
  obtain ⟨ended, -, front, rest, whole, selects, condition⟩ := deletion_iff.mp read
  have closed : (lex d kept).mode.closed = true := by
    by_contra opened
    rw [inList_eq, lex_inert (by simpa using opened) (inert_inList (n + 1))] at ended
    cases ended
  rw [body_closed closed] at whole
  rcases readCondition_cases condition with
    ⟨p, v, rfl, mark, -⟩ | ⟨keyword, marks, rfl, some, all, -⟩
  · rw [inTokens, tuple, ← List.cons_append, ← List.append_assoc] at whole
    obtain ⟨-, last⟩ := List.append_inj' (whole.trans (List.append_assoc front [[61]] [p]).symm) rfl
    obtain rfl : [41] = p := by simpa using last
    exact absurd mark (by cases d <;> decide)
  · have bracket : [40] ∉ marks := fun mem => absurd (all _ mem) (by cases d <;> decide)
    have cut : (code d kept ++ [lit "IN"]) ++ [40] ::
        (joinWith [[44]] ((List.replicate (n + 1) [63]).map fun p => [p]) ++ [[41]]) =
        (front ++ [keyword]) ++ [40] :: (joinWith [[44]] (marks.map fun p => [p]) ++ [[41]]) := by
      simpa [inTokens, tuple] using whole
    obtain ⟨fronts, lists⟩ := append_inj_of_last cut
      (not_mem_marks (by simp [List.mem_replicate])) (not_mem_marks bracket)
    have mysql : d = .mysql := by
      obtain ⟨p, marks, rfl⟩ := List.exists_cons_of_ne_nil some
      have heads : ([63] : GoString) = p := by
        have heads := congrArg List.head? lists
        cases n <;> cases marks <;> simpa [List.replicate_succ, joinWith] using heads
      have mark := all p (by simp)
      rw [← heads] at mark
      cases d with
      | mysql => rfl
      | postgres => exact absurd mark (by decide)
    obtain rfl := (List.append_inj' fronts rfl).1
    exact ⟨mysql, closed, selects⟩

variable {base column front : List GoString} {query : GoString}

theorem arity_after (selects : Selects .mysql base column front) (toks : List GoString) :
    arity .mysql (front ++ toks) = toks.countP (isPlaceholder .mysql) := by
  have none : front.countP (isPlaceholder .mysql) = 0 :=
    List.countP_eq_zero.mpr fun t mem => by simp [selects.plain t mem]
  rw [arity, List.countP_append, none, Nat.zero_add]

theorem boundValues_marks (pre vs : List Value) :
    boundValues .mysql (pre ++ vs) pre.length (List.replicate vs.length [63]) = some vs := by
  induction vs generalizing pre with
  | nil => rfl
  | cons v vs ih =>
    have rest := ih (pre ++ [v])
    rw [List.append_assoc, List.singleton_append, List.length_append, List.length_singleton] at rest
    have first :
      (pre ++ v :: vs)[argPosition .mysql pre.length [63]]? = some v := by simp [argPosition]
    rw [List.length_cons, List.replicate_succ, boundValues, first, rest]

theorem deletion_equality (ended : (lex .mysql query).mode.closed = true)
    (whole : body .mysql query = front ++ [[61], [63]]) (selects : Selects .mysql base column front)
    (v : Value) :
    deletion .mysql query [v] = some ⟨base, column, .equals v⟩ := by
  refine deletion_iff.mpr ⟨ended, ?_, front, [[61], [63]], whole, selects, rfl⟩
  rw [whole, arity_after selects]
  rfl

theorem deletion_combined (closed : (lex .mysql kept).mode.closed = true)
    (selects : Selects .mysql base column (code .mysql kept)) {vs : List Value} (some : vs ≠ []) :
    deletion .mysql (kept ++ inList vs.length) vs = Option.some ⟨base, column, .among vs⟩ := by
  have marks : ∀ p ∈ List.replicate vs.length ([63] : GoString), isPlaceholder .mysql p = true := by
    intro p mem
    obtain ⟨-, rfl⟩ := List.mem_replicate.mp mem
    rfl
  refine deletion_iff.mpr
    ⟨by rw [lex_inList closed]; rfl, ?_, _, inTokens vs.length, body_closed closed _, selects, ?_⟩
  · rw [body_closed closed, arity_after selects, inTokens, List.countP_cons_of_neg (by decide),
      countP_tuple, List.countP_eq_length.mpr marks, List.length_replicate]
  · have list := listed_marks (by simpa using some) marks
    have values := boundValues_marks [] vs
    rw [inTokens, tuple, List.cons_append, readCondition, list]
    · simp only [List.nil_append, List.length_nil] at values
      simp [values]
      decide
    · simp

theorem singletons {l : List (List Value)} (single : ∀ params ∈ l, params.length = 1) :
    ∃ vs : List Value, l = vs.map ([·]) ∧ l.mapM List.head? = some vs := by
  induction l with
  | nil => exact ⟨[], rfl, rfl⟩
  | cons params l ih =>
    obtain ⟨vs, rfl, heads⟩ := ih fun params mem => single params (List.mem_cons_of_mem _ mem)
    obtain ⟨v, rfl⟩ := List.length_eq_one_iff.mp (single params (by simp))
    exact ⟨v :: vs, rfl, by simp [heads]⟩

theorem same_of_rows {D : Deletion} {parts : List Deletion} {v : Value}
    (mem : ⟨base, column, .equals v⟩ ∈ parts)
    (union : ∀ (ρ : Type) (holds : List GoString → List GoString → Value → Set ρ),
      D.rows holds = {r | ∃ part ∈ parts, r ∈ part.rows holds}) :
    D.base = base ∧ D.column = column := by
  -- every row is told apart by the base, the column and the value it is asked for
  have rows := union (List GoString × List GoString × Value) fun base column v =>
    {(base, column, v)}
  have row : (base, column, v) ∈ D.rows fun base column v => {(base, column, v)} := by
    rw [rows]
    exact ⟨_, mem, v, by simp [Condition.values], rfl⟩
  obtain ⟨u, -, (eq : (base, column, v) = (D.base, D.column, u))⟩ := row
  obtain ⟨sameBase, sameColumn, -⟩ : base = D.base ∧ column = D.column ∧ v = u := by simpa using eq
  exact ⟨sameBase.symm, sameColumn.symm⟩

variable {b : Batch}

theorem part_of_request {parts : List Deletion}
    (same : ∀ req ∈ b.requests, req.query = b.first.query)
    (each : b.requests.map (fun req => deletion d req.query req.params) = parts.map some)
    {req : WriteRequest} (mem : req ∈ b.requests) :
    ∃ part ∈ parts, deletion d b.first.query req.params = some part := by
  have image := List.mem_map_of_mem (f := fun req => deletion d req.query req.params) mem
  rw [each, same req mem] at image
  obtain ⟨part, held, eq⟩ := List.mem_map.mp image
  exact ⟨part, held, eq.symm⟩

theorem safe_of_preserved (same : ∀ req ∈ b.requests, req.query = b.first.query)
    (preserved : DeletePreserved d b) : DeleteSafe d b := by
  obtain ⟨text, args, combined, parts, built, read, each, single, union⟩ := preserved
  obtain ⟨kept, keeps, -, rfl⟩ := batchedDelete_iff.mp built
  obtain ⟨n, count⟩ := Nat.exists_eq_add_of_le' b.several
  rw [count] at read
  obtain ⟨rfl, closed, kept_selects⟩ := selects_of_deletion read
  have leading : b.first ∈ b.requests := List.head_mem _
  obtain ⟨⟨base, column, c⟩, mem, first⟩ := part_of_request same each leading
  obtain ⟨v, rfl⟩ : ∃ v, c = .equals v := single _ mem
  obtain ⟨ended, -, front, rest, whole, selects, condition⟩ := deletion_iff.mp first
  obtain ⟨p, u, rfl, mark, -⟩ := (readCondition_cases condition).resolve_right (by simp)
  obtain rfl : p = [63] := by simpa [isPlaceholder] using mark
  obtain ⟨sameBase, sameColumn⟩ := same_of_rows mem union
  rw [sameBase, sameColumn] at kept_selects
  refine ⟨rfl, fun params mem => ?_, ended, base, column, front, kept, whole, selects, keeps,
    closed, kept_selects⟩
  obtain ⟨req, held, rfl⟩ := List.mem_map.mp mem
  obtain ⟨⟨base', column', c'⟩, -, read⟩ := part_of_request same each held
  rw [(deletion_iff.mp read).2.1, whole, arity_after selects]
  rfl

theorem preserved_of_safe (same : ∀ req ∈ b.requests, req.query = b.first.query)
    (safe : DeleteSafe d b) : DeletePreserved d b := by
  obtain ⟨rfl, single, ended, base, column, front, kept, whole, selects, keeps, closed,
    kept_selects⟩ := safe
  obtain ⟨vs, lists, heads⟩ := singletons single
  have count : vs.length = b.requests.length := by
    rw [← List.length_map (f := fun v => [v]), ← lists, Batch.paramLists, List.length_map]
  have some : vs ≠ [] := by
    have several := b.several
    rw [← count] at several
    exact List.ne_nil_of_length_pos (by omega)
  refine ⟨_, vs, ⟨base, column, .among vs⟩, vs.map fun v => ⟨base, column, .equals v⟩,
    batchedDelete_iff.mpr ⟨kept, keeps, heads, rfl⟩, ?_, ?_, ?_, ?_⟩
  · rw [← count]
    exact deletion_combined closed kept_selects some
  · calc b.requests.map (fun req => deletion .mysql req.query req.params)
        = b.requests.map (fun req => deletion .mysql b.first.query req.params) :=
          List.map_congr_left fun req mem => by rw [same req mem]
      _ = b.paramLists.map (deletion .mysql b.first.query) := by simp [Batch.paramLists]
      _ = vs.map (fun v => deletion .mysql b.first.query [v]) := by simp [lists]
      _ = _ := by simp [deletion_equality ended whole selects]
  · simp
  · intro ρ holds
    ext r
    simp [Deletion.rows, Condition.values]

def pair (text : String) : Batch where
  requests := [{ query := lit text, params := [.int 1] }, { query := lit text, params := [.int 2] }]
  several := le_rfl

end TQDBProxy.WriteBatch
