import TQDBProxy.SqlCode
import TQDBProxy.StatementSplitting

/-! Where `splitQueries` cuts and where statements end. A statement ends at a semicolon
that the lexer reads outside strings, quoted names and comments. The splitter knows
quotes and backslashes only: the two agree on a text whose comments have neither, nor a
semicolon, and whose backslashes stand in strings. -/

namespace TQDBProxy

open ListSegments Utf8

namespace SqlTokens

variable {d : Dialect} {l : Lex} {b : UInt8}

/-- A semicolon here is part of a string, a name or a comment. -/
def Mode.inside : Mode → Bool
  | .quoted _ _ | .escaped _ | .lineComment | .block _ | .blockStar _ | .blockSlash _
  | .dollar _ | .opened _ => true
  | .executed inner _ => inner.inside
  | _ => false

def boundary (l : Lex) (b : UInt8) : Bool := b == 59 && !l.mode.inside

def boundaries (d : Dialect) (s : GoString) : List Nat :=
  offsets (fun b => [b]) (step d) boundary ⟨.gap, []⟩ 0 s

/-! The bytes that the splitter reads -/

/-- Quote marks, the backslash and the semicolon. -/
def splits (b : UInt8) : Bool := ([34, 39, 59, 92, 96] : GoString).contains b

theorem ne_of_splits {c : UInt8} (silent : splits b = false) (reads : splits c = true) : b ≠ c := by
  rintro rfl
  rw [silent] at reads
  cases reads

/-- A comment, executed or not. -/
def remark (t : GoString) : Bool := endsInComment .mysql t || executable t

def Plain (s : GoString) : Prop :=
  ∀ t ∈ tokens .mysql s, (remark t = true → ∀ b ∈ t, splits b = false) ∧
    (92 ∈ t → t.head? = some 39 ∨ t.head? = some 34)

instance (s : GoString) : Decidable (Plain s) :=
  inferInstanceAs (Decidable (∀ t ∈ tokens .mysql s, _ ∧ _))

theorem remark_append {t : GoString} (is : remark t = true) (m : GoString) :
    remark (t ++ m) = true := by
  rw [remark, Bool.or_eq_true] at is ⊢
  rcases is with comment | executed
  · cases whole : executable (t ++ m) with
    | true => exact .inr rfl
    | false => exact .inl (comment_append comment fun _ => whole).1
  · exact .inr (executable_append executed m)

def Mode.commented : Mode → Bool
  | .lineComment | .block _ | .blockStar _ | .opened _ | .executed _ _ => true
  | _ => false

theorem Lex.Shaped.remark (shaped : l.Shaped) (commented : l.mode.commented = true) :
    remark l.last = true := by
  unfold Lex.Shaped at shaped
  cases point : l.mode
  case lineComment | block | blockStar =>
    simp only [point] at shaped
    rw [SqlTokens.remark, shaped.1, Bool.true_or]
  case opened maria =>
    simp only [point] at shaped
    rw [shaped]
    cases maria <;> rfl
  case executed =>
    simp only [point] at shaped
    rw [SqlTokens.remark, shaped, Bool.or_true]
  all_goals
    rw [point] at commented
    cases commented

theorem commented_extend (commented : l.mode.commented = true) (other : b ≠ 10) :
    ∃ mode, step d l b = l.extend b mode := by
  unfold step
  cases point : l.mode
  case lineComment => exact ⟨_, by rw [stepIn, if_neg other]⟩
  case block | blockStar | opened | executed => exact ⟨_, rfl⟩
  all_goals
    rw [point] at commented
    cases commented

theorem commented_step (commented : l.mode.commented = true) :
    (step .mysql l b).mode = .gap ∨ (step .mysql l b).mode.commented = true := by
  unfold step
  cases point : l.mode
  case lineComment =>
    rw [stepIn]
    split_ifs
    · exact .inl rfl
    · exact .inr rfl
  case block n =>
    simp only [stepIn, Lex.extend]
    split_ifs with star slash
    · exact .inr rfl
    · exact absurd slash.2 (by decide)
    · exact .inr rfl
  case blockStar n =>
    simp only [stepIn, Lex.extend]
    split_ifs
    · cases n with
      | zero => exact .inl rfl
      | succ n => exact .inr rfl
    · exact .inr rfl
    · exact .inr rfl
  case opened maria =>
    simp only [stepIn, Lex.extend]
    split_ifs <;> exact .inr rfl
  case executed inner star =>
    simp only [stepIn, Lex.extend, executing]
    split_ifs
    · exact .inl rfl
    · split <;> exact .inr rfl
  all_goals
    rw [point] at commented
    cases commented

theorem pending_token {x : GoString} (some : (lex d x).toks ≠ []) (y : GoString) :
    ∃ t ∈ tokens d (x ++ y), (lex d x).last <+: t := by
  obtain ⟨init, u, eq⟩ := (List.eq_nil_or_concat' (lex d x).toks).resolve_left some
  obtain ⟨t, more, toks, grows⟩ := run_keeps (d := d) (lex_ok d x) eq y
  rw [tokens, lex_append]
  refine ⟨t, by simp [toks], ?_⟩
  simpa [Lex.last, eq] using grows

theorem Plain.silent {x y : GoString} (plain : Plain (x ++ b :: y))
    (commented : (lex .mysql x).mode.commented = true) : splits b = false := by
  by_cases newline : b = 10
  · rw [newline]
    rfl
  have is := (lex_shaped x).remark commented
  obtain ⟨mode, eq⟩ := commented_extend (d := .mysql) commented newline
  rw [← lex_snoc] at eq
  have some : (lex .mysql (x ++ [b])).toks ≠ [] := by
    rw [eq]
    exact extendLast_ne_nil _
  obtain ⟨t, mem, more, rfl⟩ := pending_token some y
  rw [← List.append_cons] at mem
  refine (plain _ mem).1 ?_ b ?_
  · rw [eq, last_extend, List.append_assoc]
    exact remark_append is _
  · rw [eq, last_extend]
    simp

theorem Plain.backslash {x y : GoString} (plain : Plain (x ++ 92 :: y)) :
    ∃ q, q ≠ .back ∧
      ((lex .mysql x).mode = .quoted q true ∨ (lex .mysql x).mode = .escaped q) := by
  have out : (lex .mysql x).mode.commented = false := by
    rw [← Bool.not_eq_true]
    intro commented
    exact absurd (plain.silent commented) (by decide)
  have some : (lex .mysql (x ++ [92])).toks ≠ [] := by
    rw [lex_snoc]
    rcases (step_ok : (step .mysql (lex .mysql x) 92).Ok) with gap | some
    · rcases step_cases .mysql (lex .mysql x) 92 with eq | ⟨-, mode, eq⟩ | ⟨space, -⟩
      · rw [eq]
        exact List.append_ne_nil_of_right_ne_nil _ (by simp)
      · rw [eq]
        exact extendLast_ne_nil _
      · exact absurd space (by decide)
    · exact some
  rw [List.append_cons] at plain
  obtain ⟨t, mem, grows⟩ := pending_token some y
  have starts := (plain t mem).2
  rw [lex_snoc] at grows
  have shaped := lex_shaped x
  unfold Lex.Shaped at shaped
  have fresh_backslash (eq : step .mysql (lex .mysql x) 92 = fresh .mysql (lex .mysql x) 92) :
      False := by
    have pushed : fresh .mysql (lex .mysql x) 92 = (lex .mysql x).push 92 .gap := rfl
    rw [eq, pushed] at grows
    obtain ⟨more, rfl⟩ : [92] <+: t := by simpa [Lex.push, Lex.last] using grows
    rcases starts (by simp) with head | head <;> simp at head
  have inside (q : Quote) (pre : [q.byte] <+: (lex .mysql x).last) (mode : Mode)
      (eq : step .mysql (lex .mysql x) 92 = (lex .mysql x).extend 92 mode) : q ≠ .back := by
    rw [eq, last_extend] at grows
    obtain ⟨more, last⟩ := pre
    obtain ⟨rest, rfl⟩ := grows
    rw [← last] at starts
    rintro rfl
    rcases starts (by simp) with head | head <;> simp [Quote.byte] at head
  cases point : (lex .mysql x).mode with
  | quoted q e =>
    simp only [point] at shaped
    have strings := inside q shaped.1 _ (by rw [step, point]; rfl)
    have escapes := shaped.2.mpr strings
    subst escapes
    exact ⟨q, strings, .inl rfl⟩
  | escaped q =>
    simp only [point] at shaped
    exact ⟨q, shaped.2, .inr rfl⟩
  | lineComment | block | blockStar | opened | executed => simp [point, Mode.commented] at out
  | param | dollarTag | blockSlash | dollar =>
    simp only [point] at shaped
  | dashDash =>
    refine (fresh_backslash ?_).elim
    rw [step, point]
    rfl
  | gap | word | slash | dash | closing =>
    refine (fresh_backslash (step_fresh ?_ rfl (by decide))).elim
    rw [point]
    rfl

end SqlTokens

namespace MariaDB

open SqlTokens

/-! The splitter reads bytes -/

namespace Quoting

def nextByte (q : Quoting) (b : UInt8) : Quoting := q.next b.toNat

def cutsByte (q : Quoting) (b : UInt8) : Bool := q.cuts b.toNat

theorem next_wide (q : Quoting) {r : Nat} (wide : 0x80 ≤ r) :
    q.next r = { q with escaped := false } := by
  have backslash : r ≠ 92 := by omega
  have marks : ¬ (r = 39 ∨ r = 34 ∨ r = 96) := by omega
  obtain ⟨inQuote, quoteChar, escaped⟩ := q
  cases escaped <;> simp [next, backslash, marks]

theorem cuts_wide (q : Quoting) {r : Nat} (wide : 0x80 ≤ r) : q.cuts r = false := by
  have semicolon : r ≠ 59 := by omega
  simp [cuts, semicolon]

theorem encodeRune_wide {r : Nat} (scalar : Scalar r) (wide : 0x80 ≤ r) :
    ∀ b ∈ encodeRune r, 0x80 ≤ b.toNat := by
  have bytes := bytes_encodeRune scalar
  generalize encodeRune r = e at bytes
  cases bytes with
  | one lead => omega
  | two lead second => simpa using ⟨by omega, second.1⟩
  | three lead second third =>
    have := second.1
    simpa using ⟨by omega, by split at this <;> omega, third.1⟩
  | four lead second third fourth =>
    have := second.1
    simpa using ⟨by omega, by split at this <;> omega, third.1, fourth.1⟩

theorem foldl_wide (q : Quoting) {bs : GoString} (some : bs ≠ [])
    (wide : ∀ b ∈ bs, 0x80 ≤ b.toNat) :
    bs.foldl nextByte q = { q with escaped := false } := by
  induction bs generalizing q with
  | nil => exact absurd rfl some
  | cons b bs ih =>
    rw [List.foldl_cons, nextByte, next_wide q (wide b (by simp))]
    cases bs with
    | nil => rfl
    | cons c bs => exact ih _ (by simp) fun e mem => wide e (List.mem_cons_of_mem _ mem)

theorem offsets_wide (q : Quoting) (start : Nat) {bs : GoString}
    (wide : ∀ b ∈ bs, 0x80 ≤ b.toNat) :
    offsets (fun b => [b]) nextByte cutsByte q start bs = [] := by
  induction bs generalizing q start with
  | nil => rfl
  | cons b bs ih =>
    rw [offsets, cutsByte, cuts_wide q (wide b (by simp))]
    exact ih _ _ fun e mem => wide e (List.mem_cons_of_mem _ mem)

theorem offsets_runes (q : Quoting) (start : Nat) {rs : List Nat} (scalars : ∀ r ∈ rs, Scalar r) :
    offsets encodeRune next cuts q start rs =
      offsets (fun b => [b]) nextByte cutsByte q start (encode rs) := by
  induction rs generalizing q start with
  | nil => rfl
  | cons r rs ih =>
    have rest (q : Quoting) (start : Nat) := ih q start fun r' mem => scalars r' (by simp [mem])
    rw [encode_cons]
    by_cases wide : 0x80 ≤ r
    · have bytes := encodeRune_wide (scalars r (by simp)) wide
      obtain ⟨a, more, eq, -, -⟩ := encodeRune_cons (scalars r (by simp))
      rw [offsets, cuts_wide q wide, offsets_append, offsets_wide q start bytes,
        foldl_wide q (by simp [eq]) bytes, ← next_wide q wide, List.flatMap_singleton', rest]
      rfl
    · have ascii : r < 0x80 := by omega
      have byte : (UInt8.ofNat r).toNat = r := toNat_ofNat (by omega)
      rw [encodeRune_ascii ascii, List.singleton_append, offsets, offsets, cutsByte, nextByte, byte,
        encodeRune_ascii ascii, rest]

end Quoting

theorem cutOffsets_bytes {query : GoString} (wellFormed : valid query = true) :
    cutOffsets query =
      offsets (fun b => [b]) Quoting.nextByte Quoting.cutsByte {} 0 query := by
  rw [cutOffsets, Quoting.offsets_runes _ _ (scalar_runes query), encode_runes wellFormed]

/-! Plain text -/

/-- The quoting state that belongs to a mode of the lexer. -/
def Quoting.Follows (q : Quoting) : Mode → Prop
  | .quoted m _ => q.inQuote = true ∧ q.escaped = false ∧ q.quoteChar = m.byte.toNat
  | .escaped m => q.inQuote = true ∧ q.escaped = true ∧ q.quoteChar = m.byte.toNat
  | .param | .dollarTag | .blockSlash _ | .dollar _ => False
  | _ => q.inQuote = false ∧ q.escaped = false

namespace Quoting

variable {q : Quoting} {l : Lex} {b : UInt8}

theorem Follows.commented {mode : Mode} (commented : mode.commented = true) :
    q.Follows mode ↔ q.inQuote = false ∧ q.escaped = false := by
  cases mode with
  | lineComment | block | blockStar | opened | executed => rfl
  | _ => cases commented

theorem Follows.cuts (follows : q.Follows l.mode)
    (silent : l.mode.commented = true → splits b = false) : q.cutsByte b = boundary l b := by
  have semicolon : (b.toNat == 59) = (b == 59) := by
    rw [Bool.eq_iff_iff, beq_iff_eq, beq_iff_eq, ← UInt8.toNat_inj]
    rfl
  rw [cutsByte, Quoting.cuts, semicolon, boundary]
  cases point : l.mode
  case gap | word | slash | dash | dashDash | closing =>
    rw [point] at follows
    simp [follows.1, follows.2, Mode.inside]
  case quoted | escaped =>
    rw [point] at follows
    simp [follows.1, Mode.inside]
  case lineComment | block | blockStar | opened | executed =>
    have other : (b == 59) = false :=
      beq_eq_false_iff_ne.mpr (ne_of_splits (silent (by rw [point]; rfl)) rfl)
    rw [other]
    rfl
  all_goals
    rw [point] at follows
    exact follows.elim

theorem nextByte_quote (out : q.inQuote = false) (plain : q.escaped = false) (m : Quote) :
    q.nextByte m.byte = ⟨true, m.byte.toNat, false⟩ := by
  obtain ⟨inQuote, quoteChar, escaped⟩ := q
  cases m <;> simp_all [nextByte, next, Quote.byte]

theorem nextByte_other (plain : q.escaped = false) (backslash : b ≠ 92)
    (mark : ∀ m : Quote, b ≠ m.byte) : q.nextByte b = q := by
  have back : b.toNat ≠ 92 := fun eq => backslash (UInt8.toNat_inj.mp eq)
  have single : b.toNat ≠ 39 := fun eq => mark .single (UInt8.toNat_inj.mp eq)
  have double : b.toNat ≠ 34 := fun eq => mark .double (UInt8.toNat_inj.mp eq)
  have name : b.toNat ≠ 96 := fun eq => mark .back (UInt8.toNat_inj.mp eq)
  simp [nextByte, next, plain, back, single, double, name]

theorem Follows.fresh (out : q.inQuote = false) (plain : q.escaped = false) (backslash : b ≠ 92) :
    (q.nextByte b).Follows (fresh .mysql l b).mode := by
  by_cases quote : ∃ m : Quote, b = m.byte
  · obtain ⟨m, rfl⟩ := quote
    rw [nextByte_quote out plain]
    cases m <;> exact ⟨rfl, rfl, rfl⟩
  · have mark : ∀ m : Quote, b ≠ m.byte := fun m eq => quote ⟨m, eq⟩
    rw [nextByte_other plain backslash mark]
    have single := mark .single
    have double := mark .double
    have back := mark .back
    simp only [Quote.byte] at single double back
    simp only [SqlTokens.fresh, single, double, back, false_and, if_false]
    split_ifs with space slash dash hash dollar word
    · exact ⟨out, plain⟩
    · exact ⟨out, plain⟩
    · exact ⟨out, plain⟩
    · exact ⟨out, plain⟩
    · exact absurd dollar.2 (by decide)
    · exact ⟨out, plain⟩
    · exact ⟨out, plain⟩

theorem Follows.quoted {m : Quote} {e : Bool} (inQuote : q.inQuote = true)
    (plain : q.escaped = false) (char : q.quoteChar = m.byte.toNat) (escapes : b = 92 → e = true) :
    (q.nextByte b).Follows
      (if b = 92 ∧ e then .escaped m else if b = m.byte then .closing m e else .quoted m e) := by
  obtain ⟨quoting, quoteChar, escaped⟩ := q
  subst inQuote plain char
  by_cases backslash : b = 92
  · subst backslash
    rw [if_pos ⟨rfl, escapes rfl⟩]
    exact ⟨rfl, rfl, rfl⟩
  · rw [if_neg (fun both => backslash both.1)]
    by_cases closes : b = m.byte
    · subst closes
      rw [if_pos rfl]
      cases m <;> exact ⟨rfl, rfl⟩
    · rw [if_neg closes]
      have back : b.toNat ≠ 92 := fun eq => backslash (UInt8.toNat_inj.mp eq)
      have other : b.toNat ≠ m.byte.toNat := fun eq => closes (UInt8.toNat_inj.mp eq)
      have same : nextByte ⟨true, m.byte.toNat, false⟩ b = ⟨true, m.byte.toNat, false⟩ := by
        simp [nextByte, next, back, other]
      rw [same]
      exact ⟨rfl, rfl, rfl⟩

theorem Follows.step (follows : q.Follows l.mode)
    (silent : l.mode.commented = true → splits b = false)
    (strings : b = 92 → ∃ m, m ≠ .back ∧ (l.mode = .quoted m true ∨ l.mode = .escaped m)) :
    (q.nextByte b).Follows (SqlTokens.step .mysql l b).mode := by
  by_cases commented : l.mode.commented = true
  · have state := (Follows.commented commented).mp follows
    have other {c : UInt8} (reads : splits c = true) := ne_of_splits (silent commented) reads
    rw [nextByte_other state.2 (other rfl) fun m => by cases m <;> exact other rfl]
    rcases commented_step (b := b) commented with gap | still
    · rw [gap]
      exact state
    · exact (Follows.commented still).mpr state
  have out (closed : ∀ m, l.mode ≠ .quoted m true ∧ l.mode ≠ .escaped m) : b ≠ 92 := by
    intro backslash
    obtain ⟨m, -, quoted | escaped⟩ := strings backslash
    · exact (closed m).1 quoted
    · exact (closed m).2 escaped
  have same {c : UInt8} (eq : b = c) (reads : splits c = false) (idle : q.escaped = false) :
      q.nextByte b = q := by
    subst eq
    exact nextByte_other idle (ne_of_splits reads rfl) fun m => by
      cases m <;> exact ne_of_splits reads rfl
  have other (m : Quote) (wordy : wordByte b = true) : b ≠ m.byte := by
    rintro rfl
    cases m <;> exact absurd wordy (by decide)
  unfold SqlTokens.step
  cases point : l.mode
  all_goals rw [point] at follows out commented
  all_goals simp only [stepIn]
  case gap => exact Follows.fresh follows.1 follows.2 (out (by simp))
  case word =>
    split_ifs with wordy quote
    · rw [nextByte_other follows.2 (out (by simp)) (fun m => other m wordy)]
      exact follows
    · exact absurd quote.2.1 (by decide)
    · exact Follows.fresh follows.1 follows.2 (out (by simp))
  case slash =>
    split_ifs with star
    · rw [same star rfl follows.2]
      exact follows
    · exact Follows.fresh follows.1 follows.2 (out (by simp))
  case dash =>
    split_ifs with dash
    · rw [same dash rfl follows.2]
      exact follows
    · exact Follows.fresh follows.1 follows.2 (out (by simp))
  case dashDash =>
    have control (is : isControl b = true) : q.nextByte b = q := by
      have ne {c : UInt8} (reads : isControl c = false) : b ≠ c := by
        rintro rfl
        rw [is] at reads
        cases reads
      exact nextByte_other follows.2 (ne rfl) fun m => by cases m <;> exact ne rfl
    split_ifs with dash blank newline
    · rw [same dash rfl follows.2]
      exact follows
    · rw [control blank]
      exact follows
    · rw [control blank]
      exact follows
    · exact Follows.fresh follows.1 follows.2 (out (by simp))
  case closing m e =>
    split_ifs with doubled
    · rw [doubled, nextByte_quote follows.1 follows.2]
      exact ⟨rfl, rfl, rfl⟩
    · exact Follows.fresh follows.1 follows.2 (out (by simp))
  case quoted m e =>
    refine Follows.quoted follows.1 follows.2.1 follows.2.2 fun backslash => ?_
    obtain ⟨m', -, same | escaped⟩ := strings backslash
    · rw [point] at same
      exact (Mode.quoted.inj same).2
    · rw [point] at escaped
      cases escaped
  case escaped m =>
    obtain ⟨inQuote, quoteChar, escaped⟩ := q
    obtain ⟨rfl, rfl, rfl⟩ := follows
    exact ⟨rfl, rfl, rfl⟩
  case param | dollarTag | blockSlash | dollar => exact follows.elim
  all_goals exact absurd rfl commented

end Quoting

theorem agree_of_plain {x y : GoString} {q : Quoting} (plain : Plain (x ++ y))
    (follows : q.Follows (lex .mysql x).mode) :
    agree Quoting.nextByte Quoting.cutsByte (SqlTokens.step .mysql) boundary q (lex .mysql x) y =
      true := by
  induction y generalizing x q with
  | nil => rfl
  | cons b y ih =>
    rw [agree, follows.cuts plain.silent, beq_self_eq_true, Bool.true_and, ← lex_snoc]
    refine ih (by rwa [← List.append_cons]) ?_
    rw [lex_snoc]
    refine follows.step plain.silent ?_
    rintro rfl
    exact plain.backslash

end MariaDB

end TQDBProxy
