import TQDBProxy.GoStringLemmas
import TQDBProxy.InsertRewrite
import TQDBProxy.ListCopies
import TQDBProxy.SqlLexerOpen

/-! Rewriting without parameters: the trimmed text after the cut is repeated. The result has
the value list repeated exactly when the cut is right before the value list, the trimmed
text is all of it, and no comment or quote is left open at its end. -/

namespace TQDBProxy.WriteBatch

open SqlTokens ListCopies Strings

variable {d : Dialect} {query : GoString}

theorem made_append {pieces : List GoString} {s t : GoString} (left : Made pieces s)
    (right : Made pieces t) : Made pieces (s ++ t) := by
  obtain ⟨parts, mem, rfl⟩ := left
  obtain ⟨parts', mem', rfl⟩ := right
  refine ⟨parts ++ parts', fun p pmem => ?_, by simp⟩
  rcases List.mem_append.mp pmem with pmem | pmem
  · exact mem p pmem
  · exact mem' p pmem

theorem skipComments_split (fuel : Nat) (q : GoString) :
    (∃ y w, q = y ++ skipComments fuel q ++ w ∧ Made reversedSpaces w.reverse) ∧
      ∀ y, skipComments fuel q ≠ y ++ [32] := by
  induction fuel generalizing q with
  | zero =>
    obtain ⟨u, w, eq, -, made⟩ := trimSpace_split q
    exact ⟨⟨u, w, eq, made⟩, fun y => trimSpace_not_space⟩
  | succ fuel ih =>
    obtain ⟨u, w, eq, -, made⟩ := trimSpace_split q
    rw [skipComments]
    split_ifs
    · split
      · exact ⟨⟨u, w, eq, made⟩, fun y => trimSpace_not_space⟩
      · rename_i endIdx _
        obtain ⟨⟨y, w', eq', made'⟩, trimmed⟩ := ih ((trimSpace q).drop (endIdx + 2))
        refine ⟨⟨u ++ (trimSpace q).take (endIdx + 2) ++ y, w' ++ w, ?_, ?_⟩, trimmed⟩
        · have split : (trimSpace q).take (endIdx + 2) ++
              (y ++ skipComments fuel ((trimSpace q).drop (endIdx + 2)) ++ w') = trimSpace q := by
            rw [← eq', List.take_append_drop]
          calc q = u ++ trimSpace q ++ w := eq
            _ = u ++ ((trimSpace q).take (endIdx + 2) ++
                (y ++ skipComments fuel ((trimSpace q).drop (endIdx + 2)) ++ w')) ++ w := by
              rw [split]
            _ = _ := by simp
        · rw [List.reverse_append]
          exact made_append made made'
    · exact ⟨⟨u, w, eq, made⟩, fun y => trimSpace_not_space⟩

theorem isBatchableInsert_end (accepted : isBatchableInsert query = true) :
    ∃ x w, query = x ++ 41 :: w ∧ Made reversedSpaces w.reverse := by
  obtain ⟨⟨y, w, eq, made⟩, trimmed⟩ := skipComments_split query.length query
  simp only [isBatchableInsert, Bool.and_eq_true, Bool.or_eq_true, beq_iff_eq] at accepted
  rcases accepted.2 with last | last
  · obtain ⟨front, eq'⟩ := List.getLast?_eq_some_iff.mp last
    refine ⟨y ++ front, w, ?_, made⟩
    rw [eq, eq']
    simp
  · obtain ⟨front, eq'⟩ := List.getLast?_eq_some_iff.mp last
    exact absurd eq' (trimmed front)

def foreign (b : UInt8) : Prop := 128 ≤ b

instance (b : UInt8) : Decidable (foreign b) := inferInstanceAs (Decidable (128 ≤ b))

theorem foreign_of_spaceByte {b : UInt8} (space : spaceByte b = true) (other : isSpace b = false) :
    foreign b := by
  simp only [spaceByte, Bool.or_eq_true, decide_eq_true_eq] at space
  rcases space with (space | space) | space
  · simp [isSpace, space] at other
  · simp [isSpace, space] at other
  · exact space

theorem foreign_of_squeeze {s : GoString} (bytes : ∀ b ∈ s, spaceByte b = true) :
    ∀ b ∈ squeeze s, foreign b := by
  intro b mem
  obtain ⟨mem, other⟩ := List.mem_filter.mp mem
  exact foreign_of_spaceByte (bytes b mem) (by simpa using other)

theorem trimmed_end (accepted : isBatchableInsert query = true) (cut : Nat) :
    (∃ y, trimSpace (query.drop cut) = y ++ [41]) ∨
      ∀ b ∈ trimSpace (query.drop cut), spaceByte b = true := by
  obtain ⟨x, w, eq, made⟩ := isBatchableInsert_end accepted
  by_cases before : cut ≤ x.length
  · left
    have drop : query.drop cut = x.drop cut ++ 41 :: w := by
      rw [eq, List.drop_append_of_le_length before]
    exact trimSpace_last drop rfl made
  · right
    have drop : query.drop cut <:+ w := by
      obtain ⟨k, rfl⟩ : ∃ k, cut = x.length + (k + 1) := ⟨cut - x.length - 1, by omega⟩
      rw [eq, List.drop_length_add_append, List.drop_succ_cons]
      exact List.drop_suffix k w
    intro b mem
    obtain ⟨u, v, split, -⟩ := trimSpace_split (query.drop cut)
    refine spaceByte_of_made made b (drop.subset ?_)
    rw [split]
    simp [mem]

theorem not_placeholder_of_arity {toks : List GoString} (none : arity d toks = 0) :
    ∀ t ∈ toks, isPlaceholder d t = false := by
  intro t mem
  cases d with
  | mysql =>
    have all := List.countP_eq_zero.mp none t mem
    simpa using all
  | postgres =>
    have zero : placeholderIndex t = 0 := by
      simp only [arity] at none
      induction toks with
      | nil => simp at mem
      | cons u rest ih =>
        simp only [List.map_cons, List.foldr_cons] at none
        rcases List.mem_cons.mp mem with rfl | mem
        · omega
        · exact ih mem (by omega)
    simp [isPlaceholder, zero]

theorem isPlaceholder_head {t : GoString} (mark : isPlaceholder d t = true) :
    ∃ b u, t = b :: u ∧ (b = 63 ∨ b = 36) := by
  cases d with
  | mysql => exact ⟨63, [], by simpa [isPlaceholder] using mark, .inl rfl⟩
  | postgres =>
    have index : placeholderIndex t ≠ 0 := by simpa [isPlaceholder] using mark
    unfold placeholderIndex at index
    split at index
    · exact ⟨36, _, rfl, .inr rfl⟩
    · exact absurd rfl index

theorem pieces_placeholder {t : GoString} (mark : isPlaceholder d t = true) : pieces d t = [t] := by
  obtain ⟨b, u, rfl, rfl | rfl⟩ := isPlaceholder_head mark
  · exact (pieces_of_head (by decide) u).1
  · exact (pieces_of_head (by decide) u).1

theorem countP_significant (toks : List GoString) :
    toks.countP (isPlaceholder d) ≤ (significant d toks).countP (isPlaceholder d) := by
  induction toks with
  | nil => exact le_rfl
  | cons t toks ih =>
    rw [significant, List.flatMap_cons, List.countP_append, List.countP_cons]
    split_ifs with mark
    · rw [pieces_placeholder mark, List.countP_singleton, if_pos mark, Nat.add_comm]
      exact Nat.add_le_add_left ih 1
    · exact ih.trans (Nat.le_add_left _ _)

theorem resolve_plain {args : List Value} {ordinal : Nat} {t : GoString} {rest : List GoString}
    (plain : isPlaceholder d t = false) :
    resolve d args ordinal (t :: rest) = .text t :: resolve d args ordinal rest := by
  simp [resolve, plain]

theorem resolve_texts {args : List Value} {ordinal : Nat} {toks : List GoString}
    (plain : ∀ t ∈ toks, isPlaceholder d t = false) :
    resolve d args ordinal toks = toks.map .text := by
  induction toks with
  | nil => rfl
  | cons t rest ih =>
    rw [resolve_plain (plain t (by simp)), ih fun u mem => plain u (List.mem_cons_of_mem _ mem)]
    rfl

theorem eq_of_resolve_texts {args : List Value} {ordinal : Nat} {toks ts : List GoString}
    (same : resolve d args ordinal toks = ts.map .text) : toks = ts := by
  induction toks generalizing ordinal ts with
  | nil =>
    cases ts with
    | nil => rfl
    | cons u ts => simp [resolve] at same
  | cons t rest ih =>
    cases ts with
    | nil =>
      rw [resolve] at same
      split_ifs at same <;> simp at same
    | cons u ts =>
      rw [resolve] at same
      split_ifs at same
      · simp at same
      · obtain ⟨rfl, tail⟩ : t = u ∧ resolve d args ordinal rest = ts.map .text := by
          simpa using same
        rw [ih tail]

theorem tokens_of_cut {before rest : List GoString} {cut : Nat}
    (whole : tokens d query = before ++ rest)
    (keyword : ∃ init t, before = init ++ [t] ∧ isKeyword (lit "VALUES") t = true)
    (same : squeeze (query.take cut) = squeeze before.flatten) :
    tokens d (query.take cut) = before := by
  obtain ⟨init, t, rfl, keyword⟩ := keyword
  obtain ⟨letters, front, c, rfl, last⟩ := isKeyword_bytes keyword
  obtain ⟨x, y, eq, toks, ends⟩ := tokens_take (d := d) (s := query) ⟨rest, whole.symm⟩
  have squeezed : squeeze x = squeeze (query.take cut) := by
    rw [same, ← toks, squeeze_tokens]
  have closed := closed_of_letters toks letters
  obtain ⟨xs, rfl⟩ : ∃ xs, x = xs ++ [c] := by
    rw [List.getLast?_concat] at ends
    exact List.getLast?_eq_some_iff.mp ends
  have nonspace : isSpace c = false := by rcases last with rfl | rfl <;> rfl
  have cutting : query.take cut ++ query.drop cut = (xs ++ [c]) ++ y := by
    rw [List.take_append_drop, eq]
  rcases List.append_eq_append_iff.mp cutting with ⟨z, eq', -⟩ | ⟨z, eq', -⟩
  · have nothing : squeeze z = [] := by
      rw [eq', squeeze_append] at squeezed
      simpa using squeezed
    rcases List.eq_nil_or_concat' z with rfl | ⟨z', e, rfl⟩
    · rw [List.append_nil] at eq'
      rw [← eq', toks]
    · have heads : xs ++ [c] = (query.take cut ++ z') ++ [e] := by simpa using eq'
      obtain rfl : c = e := by simpa using (List.append_inj' heads rfl).2
      simp [squeeze, nonspace] at nothing
  · have nothing : squeeze z = [] := by
      rw [eq', squeeze_append (xs ++ [c]) z] at squeezed
      simpa using squeezed
    cases z with
    | nil => rw [eq', List.append_nil, toks]
    | cons e z =>
      rw [eq', tokens, lex_append, run_spaces closed nothing (by simp)]
      exact toks

theorem tokens_after_cut {before rest : List GoString} {base u s : GoString}
    (whole : tokens d (base ++ u ++ s) = before ++ rest)
    (keyword : ∃ init t, before = init ++ [t] ∧ isKeyword (lit "VALUES") t = true)
    (cut : tokens d base = before) (spaces : squeeze u = []) : tokens d s = rest := by
  obtain ⟨init, t, rfl, keyword⟩ := keyword
  have closed := closed_of_letters cut (isKeyword_bytes keyword).1
  have toks : (lex d base).toks = init ++ [t] := cut
  have from_gap (eq : lex d (base ++ u ++ s) = run d ⟨.gap, init ++ [t]⟩ s) :
      tokens d s = rest := by
    rw [tokens, eq, run_gap] at whole
    exact List.append_cancel_left whole
  cases u with
  | cons e u =>
    refine from_gap ?_
    rw [lex_append, lex_append, run_spaces closed spaces (by simp), toks]
  | nil =>
    rw [List.append_nil] at whole from_gap
    cases s with
    | nil =>
      rw [List.append_nil, cut] at whole
      have nothing : rest = [] := by simpa using whole
      rw [nothing]
      rfl
    | cons e s =>
      have start : step d ⟨.gap, init ++ [t]⟩ e = fresh d (lex d base) e := by
        rw [← toks]
        rfl
      rcases step_cases d (lex d base) e with eq | ⟨-, mode, eq⟩ | ⟨space, eq⟩
      · refine from_gap ?_
        rw [lex_append, run_cons, run_cons, eq, start]
      · have grown : ((lex d base).extend e mode).toks = init ++ [t ++ [e]] := by
          rw [Lex.extend, toks, extendLast_append]
        obtain ⟨t', more, eq', longer⟩ := run_keeps (d := d) (.inr (by simp [grown])) grown s
        rw [tokens, lex_append, run_cons, eq, eq', List.append_assoc] at whole
        obtain ⟨rfl, -⟩ := List.cons.inj (List.append_cancel_left whole)
        have bad := longer.length_le
        rw [List.length_append, List.length_singleton] at bad
        omega
      · refine from_gap ?_
        rw [lex_append, run_cons, run_cons, eq, start]
        simp [fresh, space]

theorem head_squeeze_tokens {after : List GoString}
    (heads : ∀ t ∈ after, ∃ b rest, t = b :: rest ∧ isSpace b = false) :
    (after = [] ↔ squeeze after.flatten = []) ∧
      ∀ x, (squeeze after.flatten).head? = some x → ∃ t rest, after = t :: rest ∧
        t.head? = some x := by
  cases after with
  | nil => simp [squeeze]
  | cons t after =>
    obtain ⟨b, rest, rfl, nonspace⟩ := heads t (by simp)
    simp [squeeze, nonspace]

structure ClauseCut (d : Dialect) (query base u clause w : GoString)
    (before values after : List GoString) : Prop where
  text : query = base ++ u ++ clause ++ w
  split : ValueSplit d (tokens d query) before values after
  left : ∀ b ∈ u, spaceByte b = true
  right : ∀ b ∈ w, spaceByte b = true
  ending : (∃ y, clause = y ++ [41]) ∨ ∀ b ∈ clause, spaceByte b = true

variable {base u clause w : GoString} {before values after : List GoString}

theorem ClauseCut.forced (cut : ClauseCut d query base u clause w before values after) {n : Nat}
    (built : tokens d (base ++ [32] ++ joinWith [44, 32] (List.replicate (n + 2) clause)) =
      before ++ joinWith [[44]] (List.replicate (n + 2) values) ++ after) :
    squeeze base = squeeze before.flatten ∧ squeeze clause = squeeze values.flatten ∧
      squeeze u = [] ∧ squeeze w = [] ∧ after = [] := by
  have whole : squeeze base ++ squeeze u ++ squeeze clause ++ squeeze w =
      squeeze before.flatten ++ squeeze values.flatten ++ squeeze after.flatten := by
    rw [← squeeze_append, ← squeeze_append, ← squeeze_append, ← cut.text, ← squeeze_tokens d query,
      cut.split.whole, List.flatten_append, List.flatten_append, squeeze_append, squeeze_append]
  have copies : squeeze base ++ squeeze clause ++ more 44 (squeeze clause) (n + 1) =
      squeeze before.flatten ++ squeeze values.flatten ++
        more 44 (squeeze values.flatten) (n + 1) ++
        squeeze after.flatten := by
    have bytes := congrArg (fun ts => squeeze (List.flatten ts)) built
    simp only [squeeze_tokens, List.flatten_append, squeeze_append] at bytes
    rw [joinWith_hom squeeze rfl squeeze_append, joinWith_hom List.flatten rfl
      (fun x y => List.flatten_append), joinWith_hom squeeze rfl squeeze_append,
      List.map_replicate, List.map_replicate, List.map_replicate] at bytes
    have sep : squeeze [44, 32] = [44] := rfl
    have sep' : squeeze ([[44]] : List GoString).flatten = [44] := rfl
    have blank : squeeze [32] = [] := rfl
    rw [sep, sep', blank, joinWith_replicate, joinWith_replicate, List.append_nil] at bytes
    simpa using bytes
  have heads : ∀ t ∈ after, ∃ b rest, t = b :: rest ∧ isSpace b = false := fun t mem =>
    tokens_head d query t (by rw [cut.split.whole]; simp [mem])
  obtain ⟨nothing, first⟩ := head_squeeze_tokens heads
  obtain ⟨init, t, rfl, keyword⟩ := cut.split.keyword
  obtain ⟨-, front, s, rfl, last⟩ := isKeyword_bytes keyword
  have ending : squeeze (init ++ [front ++ [s]]).flatten = squeeze (init.flatten ++ front) ++
      [s] := by
    have nonspace : isSpace s = false := by rcases last with rfl | rfl <;> rfl
    simp [squeeze, nonspace]
  have ends : (∀ x, (squeeze clause).getLast? = some x → ¬ foreign x) ∨
      ∀ x ∈ squeeze clause, foreign x := by
    rcases cut.ending with ⟨y, rfl⟩ | bytes
    · left
      intro x eq
      obtain rfl : 41 = x := by simpa [squeeze, show isSpace 41 = false from rfl] using eq
      decide
    · exact .inr (foreign_of_squeeze bytes)
  obtain ⟨sameBase, sameClause, noLeft, noRight, noAfter⟩ :=
    copies_forced foreign (c := 44) (s := s) (by decide)
      (by rcases last with rfl | rfl <;> decide) (by rcases last with rfl | rfl <;> decide)
      (foreign_of_squeeze cut.left) (foreign_of_squeeze cut.right) ends ending
      (fun x head => by
        obtain ⟨t, rest, eq, head⟩ := first x head
        exact fun comma => cut.split.stop t rest eq (comma ▸ head)) whole copies
  exact ⟨sameBase, sameClause, noLeft, noRight, nothing.mpr noAfter⟩

theorem ClauseCut.single (cut : ClauseCut d query base u clause w before values after) :
    (lex d clause).mode ≠ .dashDash := by
  intro dashes
  rcases List.eq_nil_or_concat' clause with rfl | ⟨y, c, rfl⟩
  · simp [lex, run] at dashes
  · rw [lex_snoc] at dashes
    obtain rfl := dashDash_of_step dashes
    rcases cut.ending with ⟨y', eq⟩ | bytes
    · have heads := (List.append_inj' eq rfl).2
      simp at heads
    · exact absurd (bytes 45 (by simp)) (by decide)

theorem length_squeeze_le {s t : GoString} (sub : s <+: t) :
    (squeeze s).length ≤ (squeeze t).length := by
  obtain ⟨r, rfl⟩ := sub
  rw [squeeze_append, List.length_append]
  omega

theorem ClauseCut.closed (cut : ClauseCut d query base u clause w before values after) {n : Nat}
    (toks : tokens d base = before) (same : squeeze clause = squeeze values.flatten)
    (built : tokens d (base ++ [32] ++ joinWith [44, 32] (List.replicate (n + 2) clause)) =
      before ++ joinWith [[44]] (List.replicate (n + 2) values)) :
    (lex d clause).mode.closed = true := by
  by_contra notClosed
  have opened : (lex d clause).mode.closed = false := by simpa using notClosed
  obtain ⟨init, keyword, rfl, letters⟩ := cut.split.keyword
  have baseClosed := closed_of_letters toks (isKeyword_bytes letters).1
  -- the text up to the first separator ends inside the open token
  have first : lex d (base ++ [32] ++ clause) =
      ⟨(lex d clause).mode, (init ++ [keyword]) ++ tokens d clause⟩ := by
    rw [lex_append, lex_append, run_cons, step_space baseClosed rfl]
    rw [show (lex d base).toks = init ++ [keyword] from toks]
    exact run_gap _ _
  have pending : tokens d clause ≠ [] := by
    rcases lex_ok d clause with gap | some
    · rw [gap] at opened
      cases opened
    · exact some
  obtain ⟨front, t, last⟩ := (List.eq_nil_or_concat' (tokens d clause)).resolve_left pending
  obtain ⟨mode, comma, -⟩ := step_inert (d := d) (b := 44)
    (l := ⟨(lex d clause).mode, (init ++ [keyword]) ++ tokens d clause⟩) opened cut.single rfl
  have grown : (step d ⟨(lex d clause).mode, (init ++ [keyword]) ++ tokens d clause⟩ 44).toks =
      ((init ++ [keyword]) ++ front) ++ [t ++ [44]] := by
    rw [comma, Lex.extend, last, ← List.append_assoc, extendLast_append]
  have text : base ++ [32] ++ joinWith [44, 32] (List.replicate (n + 2) clause) =
      (base ++ [32] ++ clause) ++ 44 ::
        (32 :: joinWith [44, 32] (List.replicate (n + 1) clause)) := by
    rw [List.replicate_succ, joinWith_cons (by simp [List.replicate_succ])]
    simp
  obtain ⟨t', rest, after, longer⟩ := run_keeps (d := d) step_ok grown
    (32 :: joinWith [44, 32] (List.replicate (n + 1) clause))
  have found : front ++ t' :: rest = values ++ more [44] values (n + 1) := by
    rw [text, tokens, lex_append, first, run_cons, after, joinWith_replicate] at built
    have cancel : (init ++ [keyword]) ++ (front ++ t' :: rest) =
        (init ++ [keyword]) ++ (values ++ more [44] values (n + 1)) := by simpa using built
    exact List.append_cancel_left cancel
  have bytes : squeeze front.flatten ++ squeeze t = squeeze values.flatten := by
    rw [← same, ← squeeze_tokens d clause, last, List.flatten_append, squeeze_append]
    simp
  have some : 0 < (squeeze t).length := by
    obtain ⟨b, r, rfl, nonspace⟩ := tokens_head d clause t (by rw [last]; simp)
    simp [squeeze, nonspace]
  have wider : (squeeze t).length + 1 ≤ (squeeze t').length := by
    have le := length_squeeze_le longer
    rw [squeeze_append, List.length_append] at le
    exact le
  have total := congrArg List.length bytes
  rw [List.length_append] at total
  rcases List.append_eq_append_iff.mp found with ⟨z, eq, tail⟩ | ⟨z, eq, -⟩
  · cases z with
    | nil =>
      rw [eq, List.append_nil] at total
      omega
    | cons y z =>
      obtain ⟨rfl, -⟩ := List.cons.inj tail
      rw [eq, List.flatten_append, squeeze_append, List.length_append, List.flatten_cons,
        squeeze_append, List.length_append] at total
      omega
  · rw [eq, List.flatten_append, squeeze_append, List.length_append] at total
    omega

theorem ClauseCut.built (cut : ClauseCut d query base u clause w before values []) {n : Nat}
    (toks : tokens d base = before) (closed : (lex d clause).mode.closed = true)
    (left : squeeze u = []) (right : squeeze w = []) :
    tokens d (base ++ [32] ++ joinWith [44, 32] (List.replicate (n + 1) clause)) =
      before ++ joinWith [[44]] (List.replicate (n + 1) values) := by
  have list : tokens d clause = values := by
    have whole : tokens d (base ++ u ++ (clause ++ w)) = before ++ values := by
      rw [← List.append_assoc, ← cut.text]
      simpa using cut.split.whole
    have rest := tokens_after_cut whole cut.split.keyword toks left
    cases w with
    | nil => simpa using rest
    | cons b w =>
      rw [tokens, lex_append, run_spaces closed right (by simp)] at rest
      exact rest
  have again (n : Nat) : ∀ ts, (run d ⟨.gap, ts⟩
      (joinWith [44, 32] (List.replicate (n + 1) clause))).toks =
        ts ++ joinWith [[44]] (List.replicate (n + 1) values) := by
    induction n with
    | zero =>
      intro ts
      change (run d ⟨.gap, ts⟩ clause).toks = ts ++ values
      rw [run_gap, list]
    | succ n ih =>
      intro ts
      have separator : run d ⟨(lex d clause).mode, ts ++ tokens d clause⟩ [44, 32] =
          ⟨.gap, ts ++ values ++ [[44]]⟩ := by
        have comma := step_solo (d := d) (b := 44)
          (l := ⟨(lex d clause).mode, ts ++ tokens d clause⟩) closed (.inr (.inr (.inl rfl)))
        rw [run_cons, comma, run_cons, step_space rfl rfl, list]
        rfl
      rw [List.replicate_succ, joinWith_cons (by simp [List.replicate_succ]), run_append,
        run_append,
        run_gap, separator, ih, List.replicate_succ (n := n + 1),
        joinWith_cons (by simp [List.replicate_succ])]
      simp
  obtain ⟨init, keyword, rfl, letters⟩ := cut.split.keyword
  have baseClosed := closed_of_letters toks (isKeyword_bytes letters).1
  rw [tokens, lex_append, lex_append, run_cons, step_space baseClosed rfl,
    show (lex d base).toks = init ++ [keyword] from toks]
  exact again n _

section
variable {requests : List (List Value)}

theorem clauseCut_of_split (accepted : isBatchableInsert query = true)
    (split : splitValues d (tokens d query) = some (before, values, after)) (cut : Nat) :
    ∃ u w, query.drop cut = u ++ trimSpace (query.drop cut) ++ w ∧
      ClauseCut d query (query.take cut) u (trimSpace (query.drop cut)) w before values after := by
  obtain ⟨u, w, eq, left, made⟩ := trimSpace_split (query.drop cut)
  refine ⟨u, w, eq, ?_, valueSplit_of_splitValues split, left, spaceByte_of_made made,
    trimmed_end accepted cut⟩
  calc query = query.take cut ++ query.drop cut := (List.take_append_drop ..).symm
    _ = query.take cut ++ (u ++ trimSpace (query.drop cut) ++ w) := by rw [← eq]
    _ = _ := by simp

theorem copies_texts {n ordinal : Nat} (count : requests.length = n + 2)
    (plain : ∀ t ∈ values, isPlaceholder d t = false) :
    joinWith [.text [44]] (requests.map fun params => resolve d params ordinal values) =
      (joinWith [[44]] (List.replicate (n + 2) values)).map Resolved.text := by
  rw [joinWith_hom (List.map Resolved.text) rfl (fun x y => List.map_append)]
  congr 1
  rw [List.map_replicate, List.eq_replicate_iff]
  refine ⟨by simpa using count, fun l mem => ?_⟩
  obtain ⟨params, -, rfl⟩ := List.mem_map.mp mem
  exact resolve_texts plain

theorem clause_preserved_iff (accepted : isBatchableInsert query = true) {n : Nat}
    (count : requests.length = n + 2) (first : (requests.headD []).length = 0)
    (none : arity d (significant d (tokens d query)) = 0) :
    Preserved d query requests ↔ RewriteSafe d query requests := by
  have plain : ∀ t ∈ tokens d query, isPlaceholder d t = false := by
    have all : (significant d (tokens d query)).countP (isPlaceholder d) = 0 :=
      List.countP_eq_zero.mpr fun t mem => by simp [not_placeholder_of_arity none t mem]
    have few := countP_significant (d := d) (tokens d query)
    intro t mem
    simpa using List.countP_eq_zero.mp (by omega) t mem
  have clauses (clause : GoString) :
      (requests.map fun _ => clause) = List.replicate (n + 2) clause := by
    rw [List.map_const', count]
  constructor
  · intro preserved
    obtain ⟨before, values, after, text, args, middle, split, built, toks, same⟩ := preserved
    obtain ⟨cut, found, bound⟩ := multiRow_cut built
    have whole := (valueSplit_of_splitValues split).whole
    rw [copies_texts count fun t mem => plain t (by rw [whole]; simp [mem])] at same
    obtain rfl := eq_of_resolve_texts same
    rw [multiRow_of_cut found bound, if_pos first, clauses] at built
    obtain ⟨rfl, -⟩ := MultiRow.statement.inj built
    obtain ⟨u, w, rest, parts⟩ := clauseCut_of_split accepted split cut
    obtain ⟨sameBase, sameClause, left, right, rfl⟩ := parts.forced toks
    rw [List.append_assoc] at whole
    have base := tokens_of_cut whole parts.split.keyword sameBase
    have closed := parts.closed base sameClause (by simpa using toks)
    refine ⟨before, values, cut, split, found, bound, base, ?_⟩
    rw [if_pos first]
    refine ⟨closed, ?_⟩
    nth_rewrite 2 [rest]
    rw [squeeze_append, squeeze_append, left, right]
    simp
  · intro safe
    obtain ⟨before, values, cut, split, found, bound, base, safe⟩ := safe
    rw [if_pos first] at safe
    obtain ⟨u, w, rest, parts⟩ := clauseCut_of_split accepted split cut
    have whole := (valueSplit_of_splitValues split).whole
    have blank : squeeze u = [] ∧ squeeze w = [] := by
      have bytes := safe.2
      nth_rewrite 2 [rest] at bytes
      rw [squeeze_append, squeeze_append] at bytes
      have lengths := congrArg List.length bytes
      simp only [List.length_append] at lengths
      exact ⟨List.length_eq_zero_iff.mp (by omega), List.length_eq_zero_iff.mp (by omega)⟩
    have toks := parts.built (n := n + 1) base safe.1 blank.1 blank.2
    refine ⟨before, values, [], _, [], joinWith [[44]] (List.replicate (n + 2) values), split,
      by rw [multiRow_of_cut found bound, if_pos first, clauses], by rw [toks]; simp, ?_⟩
    rw [copies_texts count fun t mem => plain t (by rw [whole]; simp [mem])]
    refine resolve_texts fun t mem => ?_
    rcases mem_joinWith mem with comma | ⟨l, copy, inside⟩
    · obtain rfl : t = [44] := by simpa using comma
      cases d <;> rfl
    · rw [List.eq_of_mem_replicate copy] at inside
      exact plain t (by rw [whole]; simp [inside])

end

end TQDBProxy.WriteBatch
