import TQDBProxy.GoStringLemmas
import TQDBProxy.HintReading
import TQDBProxy.SqlLexerModes

/-! Which hints are recovered. The expression of the hints is searched in the whole
text: a comment with its hints in the parser's order is read and removed, any other
comment stays in the query. -/

namespace TQDBProxy.Parser

open Regex

def QueryType.writes : QueryType → Bool
  | .insert | .update | .delete => true
  | _ => false

theorem parse_unhinted {s : GoString} (none : hintRegex.find .none s = .none) :
    (parse s).query = s := by
  unfold parse applyHints
  rw [none]
  dsimp only
  split <;> rfl

theorem parse_hinted {s : GoString} {m : Cursor UInt8} (found : hintRegex.find none s = some m) :
    (parse s).file = m.submatch 4 ∧ (parse s).line = atoi (m.submatch 6) ∧
      (parse s).batchMs = atoi (m.submatch 8) ∧
      (parse s).ttl = (if (queryType s).writes then 0 else atoi (m.submatch 2)) ∧
      (parse s).query = Strings.trimSpace (hintRegex.removeAll none 0 s) := by
  have writable (p : ParsedQuery) : p.isWritable = p.type.writes := by
    unfold ParsedQuery.isWritable
    cases p.type <;> rfl
  unfold parse applyHints
  rw [found]
  simp only [writable]
  cases writes : (queryType s).writes with
  | false => simp
  | true =>
    split
    · simp
    · rename_i ttl
      simpa using ttl

theorem count_trimSpace {b : UInt8} (other : Strings.spaceByte b = false) (s : GoString) :
    (Strings.trimSpace s).count b = s.count b := by
  obtain ⟨u, w, eq, before, made⟩ := Strings.trimSpace_split s
  have after := Strings.spaceByte_of_made made
  have none {t : GoString} (spaces : ∀ b ∈ t, Strings.spaceByte b = true) : t.count b = 0 := by
    refine List.count_eq_zero.mpr fun mem => ?_
    have clash := spaces b mem
    rw [other] at clash
    cases clash
  conv_rhs => rw [eq, List.count_append, List.count_append, none before, none after]
  omega

theorem trimSpace_start {x y : UInt8} (first : Strings.spaceByte x = false)
    (second : Strings.spaceByte y = false) (s : GoString) :
    ∃ t, Strings.trimSpace (x :: y :: s) = x :: y :: t := by
  obtain ⟨u, w, eq, before, made⟩ := Strings.trimSpace_split (x :: y :: s)
  have after := Strings.spaceByte_of_made made
  generalize Strings.trimSpace (x :: y :: s) = t at eq ⊢
  cases u with
  | cons z u =>
    obtain ⟨rfl, -⟩ := List.cons.inj eq
    have clash := before x (by simp)
    rw [first] at clash
    cases clash
  | nil =>
    rw [List.nil_append] at eq
    rcases t with - | ⟨a, - | ⟨b, t⟩⟩
    · have clash := after x (by rw [List.nil_append] at eq; rw [← eq]; simp)
      rw [first] at clash
      cases clash
    · obtain ⟨rfl, rest⟩ := List.cons.inj eq
      have inside : y ∈ w := by
        rw [← show y :: s = w from rest]
        exact List.mem_cons_self
      have clash := after y inside
      rw [second] at clash
      cases clash
    · obtain ⟨rfl, rest⟩ := List.cons.inj eq
      obtain ⟨rfl, -⟩ := List.cons.inj rest
      exact ⟨t, rfl⟩

section Lexer

open SqlTokens

theorem idle_step {d : Dialect} {l : Lex} {b : UInt8} (idle : l.mode = .gap ∨ l.mode = .word)
    (blank : Strings.spaceByte b = true) :
    (step d l b).mode = .gap ∨ (step d l b).mode = .word := by
  have closed : l.mode.closed = true := by
    rcases idle with mode | mode <;> rw [mode] <;> rfl
  cases space : isSpace b with
  | true => exact .inl (by rw [step_space closed space])
  | false =>
    have high : 128 ≤ b := by
      rw [Strings.spaceByte, show (b == 32 || 9 ≤ b && b ≤ 13) = isSpace b from rfl, space] at blank
      simpa using blank
    have word : wordByte b = true := by simp [wordByte, high]
    have large : 128 ≤ b.toNat := by simpa [UInt8.le_iff_toNat_le] using high
    have ne {c : UInt8} (small : c.toNat < 128) : b ≠ c := by
      rintro rfl
      omega
    rcases idle with mode | mode
    · have pushed : fresh d l b = l.push b .word := by
        simp [fresh, space, word, ne (c := 39) (by decide), ne (c := 34) (by decide),
          ne (c := 96) (by decide), ne (c := 47) (by decide), ne (c := 45) (by decide),
          ne (c := 35) (by decide), ne (c := 36) (by decide)]
      right
      simp only [step, mode, stepIn, pushed]
      rfl
    · right
      simp only [step, mode, stepIn, word, if_true]
      rfl

theorem idle_run {d : Dialect} {s : GoString}
    (blank : ∀ b ∈ s, Strings.spaceByte b = true) {l : Lex}
    (idle : l.mode = .gap ∨ l.mode = .word) :
    (run d l s).mode = .gap ∨ (run d l s).mode = .word := by
  induction s generalizing l with
  | nil => exact idle
  | cons b s ih =>
    obtain ⟨first, rest⟩ := List.forall_mem_cons.mp blank
    exact ih rest (idle_step idle first)

theorem trimSpace_uncommented {d : Dialect} {q : GoString}
    (free : ∀ t ∈ tokens d q, ¬ lit "/*" <+: t) (s : GoString) :
      Strings.trimSpace q ≠ 47 :: 42 :: s := by
  intro start
  obtain ⟨u, w, eq, before, -⟩ := Strings.trimSpace_split q
  have text : q = (u ++ [47, 42]) ++ (s ++ w) := by
    rw [start] at eq
    simpa [List.append_assoc] using eq
  have opened : (lex d (u ++ [47, 42])).toks = (lex d u).toks ++ [[47, 42]] := by
    rw [lex_append]
    have idle : (lex d u).mode = .gap ∨ (lex d u).mode = .word := idle_run before (.inl rfl)
    have slash : step d (lex d u) 47 = (lex d u).push 47 .slash := by
      rcases idle with mode | mode <;> simp only [step, mode, stepIn] <;> rfl
    rw [run_cons, slash, run_cons]
    simp only [step, stepIn, Lex.push]
    exact extendLast_append _ _ _
  obtain ⟨t, more, toks, grown⟩ := run_keeps (d := d) (lex_ok d _) opened (s ++ w)
  refine free t ?_ grown
  rw [text, tokens, lex_append, toks]
  simp

end Lexer

structure Recovered (c : HintComment) (q : GoString) (p : ParsedQuery) : Prop where
  file : p.file = c.value .file
  line : p.line = Strconv.digitsValue (c.value .line)
  batchMs : p.batchMs = Strconv.digitsValue (c.value .batch)
  ttl : p.ttl = if queryType q = .select then Strconv.digitsValue (c.value .ttl) else 0
  query : p.query = Strings.trimSpace q

theorem atoi_eq {s : GoString} (fits : Strconv.digitsValue s < 1 <<< 63) :
    atoi s = Strconv.digitsValue s := Nat.min_eq_left (by omega)

theorem value_of_mem (c : HintComment) {p : Hint × GoString} (mem : p ∈ c.parts) :
    c.value p.1.kind = p.1.value := by
  have found : (c.parts.find? (·.1.kind == p.1.kind)).isSome = true := by
    rw [List.find?_isSome]
    exact ⟨p, mem, beq_self_eq_true _⟩
  obtain ⟨p', eq⟩ := Option.isSome_iff_exists.mp found
  have kind : p'.1.kind = p.1.kind := by simpa using List.find?_some eq
  obtain rfl : p' = p :=
    List.inj_on_of_nodup_map c.once (List.mem_of_find?_eq_some eq) mem kind
  rw [HintComment.value, eq]

theorem laid_comment (c : HintComment) (whole : Sealed (c.value .file)) : Laid c.parts where
  gaps := c.gaps
  apart := c.apart
  whole p mem file := by
    rw [← value_of_mem c mem, file]
    exact whole

theorem matchFrom_other {s : GoString} (other : s.head? ≠ some 47) (before : Option UInt8) :
    hintRegex.matchFrom ⟨before, s, []⟩ some = none :=
  matchFrom_text_none (lit "*") other before [] fun d => (hintTail parserOrder).matchFrom d some

theorem query_unordered (c : HintComment) (q : GoString) (whole : Sealed (c.value .file))
    (unordered : ¬ (c.parts.map (·.1.kind)).Sublist parserOrder) :
    ∃ s, (parse (c.text ++ q)).query = 47 :: 42 :: s := by
  have failed : hintRegex.matchFrom ⟨none, c.text ++ q, []⟩ some = none := by
    obtain ⟨b, eq⟩ := matchFrom_comment c q
    rw [eq]
    cases result : (hintTail parserOrder).matchFrom
        ⟨b, c.lead ++ (hintsText c.parts ++ (lit "*/" ++ q)), []⟩ some with
    | none => rfl
    | some m =>
      obtain ⟨w, d, input, takes, -⟩ := (hintTail parserOrder).takes_of_matchFrom result
      exact absurd (sublist_of_takes parserOrder (X := []) takes input (by simp) sealed_nil
        c.blank (laid_comment c whole) (by simp)) unordered
  obtain ⟨s, text⟩ : ∃ s, c.text ++ q = 47 :: 42 :: s := ⟨_, text_append c q⟩
  cases found : hintRegex.find none (c.text ++ q) with
  | none =>
    rw [parse_unhinted found]
    exact ⟨s, text⟩
  | some m =>
    obtain ⟨-, -, -, -, query⟩ := parse_hinted found
    rw [text] at failed
    rw [query, text]
    -- neither of the first two bytes starts a match
    have kept : hintRegex.removeAll none 0 (47 :: 42 :: s) =
        47 :: 42 :: hintRegex.removeAll (some 42) 0 s := by
      simp only [Re.removeAll, failed, matchFrom_other (s := 42 :: s) (by simp)]
    rw [kept]
    exact trimSpace_start (by decide) (by decide) _

theorem slash_of_takes {w : GoString} (takes : hintRegex.Takes w) : (47 : UInt8) ∈ w := by
  obtain ⟨u, v, rfl, start, -⟩ := takes
  rw [(takes_text _ u).mp start]
  exact List.mem_append_left v (by decide)

theorem plain_hintRegex : hintRegex.plain = true := by decide

theorem find_before_none {q : GoString} (b : Option UInt8) :
    hintRegex.find b q = none ↔ hintRegex.find none q = none := by
  have same := hintRegex.find_before (hintRegex.blind_of_plain plain_hintRegex b none) q
  constructor
  · intro failed
    rw [failed] at same
    simpa using same.symm
  · intro failed
    rw [failed] at same
    simpa using same

theorem removeAll_iff (b : Option UInt8) (q : GoString) :
    Strings.trimSpace (hintRegex.removeAll b 0 q) = Strings.trimSpace q ↔
      hintRegex.find none q = none := by
  rw [← find_before_none b]
  constructor
  · intro same
    cases found : hintRegex.find b q with
    | none => rfl
    | some m =>
      have fewer := hintRegex.count_removeAll (fun w => slash_of_takes) found
      rw [← count_trimSpace (by decide) (hintRegex.removeAll b 0 q), same,
        count_trimSpace (by decide) q] at fewer
      exact absurd fewer (Nat.lt_irrefl _)
  · intro none
    rw [hintRegex.removeAll_of_find_none none]

theorem query_of_match (c : HintComment) {q x : GoString} {m : Cursor UInt8}
    (found : hintRegex.matchFrom ⟨none, c.text ++ q, []⟩ some = some m) (left : q = x ++ m.input) :
    ∃ b, (parse (c.text ++ q)).query = Strings.trimSpace (hintRegex.removeAll b 0 m.input) := by
  have some : c.text ++ x ≠ [] := by
    rw [text_append]
    exact List.cons_ne_nil _ _
  have text : c.text ++ q = (c.text ++ x) ++ m.input := by rw [left, List.append_assoc]
  obtain ⟨-, -, -, -, query⟩ := parse_hinted (find_of_match found)
  rw [text] at found
  obtain ⟨b, rest⟩ := hintRegex.removeAll_match some found
  exact ⟨b, by rw [query, text, rest]⟩

theorem parse_ordered (c : HintComment) (q : GoString) (whole : Sealed (c.value .file))
    (ordered : (c.parts.map (·.1.kind)).Sublist parserOrder)
    (contained : OpenFile c.parts → ¬ Overruns parserOrder q) :
    (parse (c.text ++ q)).file = c.value .file ∧ (parse (c.text ++ q)).line = atoi (c.value .line) ∧
      (parse (c.text ++ q)).batchMs = atoi (c.value .batch) ∧
      (parse (c.text ++ q)).ttl =
        (if ((queryType (c.value .file)).or (queryType q)).writes then 0 else atoi (c.value .ttl)) ∧
      ((parse (c.text ++ q)).query = Strings.trimSpace q ↔ hintRegex.find none q = none) := by
  have order : parserOrder.Nodup := by decide
  obtain ⟨b, start⟩ := matchFrom_comment c q
  obtain ⟨b', found⟩ := tail_found order ordered c.blank (laid_comment c whole) contained b []
  obtain ⟨b'', query⟩ := query_of_match c (x := []) (start.trans found) rfl
  obtain ⟨file, line, batch, ttl, -⟩ := parse_hinted (find_of_match (start.trans found))
  have values := fun kind => submatch_captured c kind b' q
  rw [show 4 = HintKind.file.inner from rfl, values] at file
  rw [show 6 = HintKind.line.inner from rfl, values] at line
  rw [show 8 = HintKind.batch.inner from rfl, values] at batch
  rw [show 2 = HintKind.ttl.inner from rfl, values, queryType_comment] at ttl
  refine ⟨file, line, batch, ttl, ?_⟩
  rw [query]
  exact removeAll_iff b'' q

def TtlAgrees (c : HintComment) (q : GoString) : Prop :=
  Strconv.digitsValue (c.value .ttl) = 0 ∨
    (queryType q = .select ↔ ((queryType (c.value .file)).or (queryType q)).writes = false)

instance (c : HintComment) (q : GoString) : Decidable (TtlAgrees c q) :=
  inferInstanceAs (Decidable (_ ∨ _))

/-- The hints of a leading comment are recovered exactly when they are in the parser's order, the
file name does not run on into the statement, the statement has nothing that reads as a hint, and
the TTL belongs to a SELECT. -/
theorem hints_recovered_iff (d : SqlTokens.Dialect) (c : HintComment) (q : GoString)
    (whole : Sealed (c.value .file))
    (range : ∀ kind ∈ [HintKind.ttl, .line, .batch], Strconv.digitsValue (c.value kind) < 1 <<< 63)
    (free : ∀ t ∈ SqlTokens.tokens d q, ¬ lit "/*" <+: t) :
    Recovered c q (parse (c.text ++ q)) ↔
      (c.parts.map (·.1.kind)).Sublist parserOrder ∧
      (OpenFile c.parts → ¬ Overruns parserOrder q) ∧
      hintRegex.find none q = none ∧ TtlAgrees c q := by
  have laid := laid_comment c whole
  have order : parserOrder.Nodup := by decide
  by_cases ordered : (c.parts.map (·.1.kind)).Sublist parserOrder
  swap
  · -- the comment is forwarded, and the statement does not start with one
    obtain ⟨s, query⟩ := query_unordered c q whole ordered
    refine iff_of_false (fun recovered => ?_) fun conditions => ordered conditions.1
    exact trimSpace_uncommented free s (recovered.query.symm.trans query)
  obtain ⟨b, start⟩ := matchFrom_comment c q
  by_cases contained : OpenFile c.parts → ¬ Overruns parserOrder q
  swap
  · obtain ⟨opened, runsOn⟩ := Classical.not_imp.mp contained
    obtain ⟨m, x, found, lost, slash⟩ :=
      tail_overrun order ordered c.blank laid opened (not_not.mp runsOn) b []
    obtain ⟨b', query⟩ := query_of_match c (start.trans found) lost
    refine iff_of_false (fun recovered => ?_) fun conditions => contained conditions.2.1
    have same := recovered.query.symm.trans query
    have counts := congrArg (List.count 47) same
    rw [count_trimSpace (by decide), count_trimSpace (by decide)] at counts
    have fewer := (hintRegex.removeAll_sublist b' 0 m.input).count_le 47
    have some : 0 < x.count 47 := List.count_pos_iff.mpr slash
    rw [lost, List.count_append] at counts
    omega
  · obtain ⟨file, line, batch, ttl, statement⟩ := parse_ordered c q whole ordered contained
    rw [atoi_eq (range .line (by simp))] at line
    rw [atoi_eq (range .batch (by simp))] at batch
    rw [atoi_eq (range .ttl (by simp))] at ttl
    have timing : (parse (c.text ++ q)).ttl =
        (if queryType q = .select then Strconv.digitsValue (c.value .ttl) else 0) ↔
          TtlAgrees c q := by
      rw [ttl, TtlAgrees]
      by_cases select : queryType q = .select
      · cases ((queryType (c.value .file)).or (queryType q)).writes <;> simp [select, eq_comm]
      · cases ((queryType (c.value .file)).or (queryType q)).writes <;> simp [select]
    constructor
    · intro recovered
      exact ⟨ordered, contained, statement.mp recovered.query, timing.mp recovered.ttl⟩
    · rintro ⟨-, -, none, agrees⟩
      exact ⟨file, line, batch, timing.mpr agrees, statement.mpr none⟩

theorem hints_recovered_full :
    ∃ c : HintComment, c.text = lit "/* ttl:60 file:app.go line:42 batch:10 */" ∧
      Recovered c (lit " SELECT * FROM t") (parse (c.text ++ lit " SELECT * FROM t")) := by
  refine ⟨⟨lit " ", [(⟨.ttl, lit "60", by decide, by decide⟩, lit " "),
      (⟨.file, lit "app.go", by decide, by decide⟩, lit " "),
      (⟨.line, lit "42", by decide, by decide⟩, lit " "),
      (⟨.batch, lit "10", by decide, by decide⟩, lit " ")],
    by decide, by decide, by decide, by decide⟩, by decide, ?_⟩
  refine (hints_recovered_iff .mysql _ _ ?_ (by decide) (by decide)).mpr
    ⟨by decide, ?_, ?_, by decide⟩
  · exact fun inside => absurd inside (by decide)
  · rintro ⟨p, last, -, closed⟩
    obtain rfl := Option.some.inj last
    exact absurd closed (by decide)
  · exact Option.isNone_iff_eq_none.mp (by decide)

/-- The batch hint before the file hint: nothing is read, and the comment is forwarded. -/
theorem hints_unread :
    ∃ c : HintComment, c.text = lit "/* batch:10 file:app.go */" ∧
      ¬ Recovered c (lit " INSERT INTO t VALUES (1)")
        (parse (c.text ++ lit " INSERT INTO t VALUES (1)")) ∧
      parse (c.text ++ lit " INSERT INTO t VALUES (1)") =
        { type := .insert, query := lit "/* batch:10 file:app.go */ INSERT INTO t VALUES (1)"
          } := by
  refine ⟨⟨lit " ", [(⟨.batch, lit "10", by decide, by decide⟩, lit " "),
      (⟨.file, lit "app.go", by decide, by decide⟩, lit " ")],
    by decide, by decide, by decide, by decide⟩, by decide, fun recovered => ?_, by decide⟩
  exact absurd recovered.batchMs (by decide)

end TQDBProxy.Parser
