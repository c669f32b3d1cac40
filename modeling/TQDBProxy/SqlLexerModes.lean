import TQDBProxy.SqlLexer

/-! How the lexer joins texts. Tokens that are complete do not influence the
reading, so a text read in a gap adds its own tokens; white space ends a closed
token and nothing else; every token stands in the text it was read from. -/

namespace TQDBProxy.SqlTokens

variable {d : Dialect} {l : Lex} {b : UInt8}

def Lex.prepend (ts : List GoString) (l : Lex) : Lex := ⟨l.mode, ts ++ l.toks⟩

theorem fresh_prepend (ts : List GoString) :
    fresh d (l.prepend ts) b = (fresh d l b).prepend ts := by
  rcases fresh_cases d b with ⟨-, eq⟩ | ⟨-, mode, -, eq⟩
  · rw [eq, eq]
    rfl
  · rw [eq, eq]
    simp [Lex.prepend, Lex.push]

theorem extend_prepend (ts : List GoString) (some : l.toks ≠ []) (mode : Mode) :
    (l.prepend ts).extend b mode = (l.extend b mode).prepend ts := by
  obtain ⟨init, t, eq⟩ := (List.eq_nil_or_concat' l.toks).resolve_left some
  simp only [Lex.prepend, Lex.extend, eq, extendLast_append, ← List.append_assoc]

theorem last_prepend (ts : List GoString) (some : l.toks ≠ []) :
    (l.prepend ts).last = l.last := by
  obtain ⟨init, t, eq⟩ := (List.eq_nil_or_concat' l.toks).resolve_left some
  simp [Lex.prepend, Lex.last, eq]

theorem step_prepend (ts : List GoString) (ok : l.Ok) :
    step d (l.prepend ts) b = (step d l b).prepend ts := by
  by_cases gap : l.mode = .gap
  · simp only [step, gap, show (l.prepend ts).mode = .gap from gap, stepIn, fresh_prepend]
  · have some := ok.resolve_left gap
    have same : (l.prepend ts).mode = l.mode := rfl
    cases point : l.mode
    all_goals
      simp only [step, same, point, stepIn, last_prepend ts some, extend_prepend ts some,
        fresh_prepend]
    all_goals first | rfl | (split_ifs <;> rfl)

theorem run_prepend (ts : List GoString) (ok : l.Ok) (s : GoString) :
    run d (l.prepend ts) s = (run d l s).prepend ts := by
  induction s generalizing l with
  | nil => rfl
  | cons b rest ih => rw [run_cons, run_cons, step_prepend ts ok, ih step_ok]

theorem run_gap (ts : List GoString) (s : GoString) :
    run d ⟨.gap, ts⟩ s = ⟨(lex d s).mode, ts ++ tokens d s⟩ := by
  have start : (⟨.gap, ts⟩ : Lex) = Lex.prepend ts ⟨.gap, []⟩ := by simp [Lex.prepend]
  rw [start, run_prepend ts (.inl rfl)]
  rfl

theorem isSpace_iff : isSpace b = true ↔ b.toNat = 32 ∨ 9 ≤ b.toNat ∧ b.toNat ≤ 13 := by
  simp [isSpace, UInt8.le_iff_toNat_le, ← UInt8.toNat_inj]

theorem isSpace_ne {c : UInt8} (space : isSpace b = true) (other : isSpace c = false) :
    b ≠ c := by
  intro eq
  simp [eq, other] at space

theorem wordByte_of_isSpace (space : isSpace b = true) : wordByte b = false := by
  rw [isSpace_iff] at space
  simp only [wordByte, isLetter, isDigit, Bool.or_eq_false_iff, Bool.and_eq_false_iff,
    beq_eq_false_iff_ne, ne_eq, ← UInt8.toNat_inj, decide_eq_false_iff_not, UInt8.le_iff_toNat_le]
  simp
  omega

theorem step_fresh (closed : l.mode.closed = true) (word : wordByte b = false)
    (apart : b ∉ ([34, 39, 42, 45, 96] : GoString)) : step d l b = fresh d l b := by
  have digit : isDigit b = false := by
    by_contra digit
    simp [wordByte, digit] at word
  have dollar : b ≠ 36 := by
    rintro rfl
    exact absurd word (by decide)
  obtain ⟨double, quote, star, dash, back⟩ : b ≠ 34 ∧ b ≠ 39 ∧ b ≠ 42 ∧ b ≠ 45 ∧ b ≠ 96 := by
    simpa using apart
  cases point : l.mode with
  | gap => rw [step, point, stepIn]
  | word => simp only [step, point, stepIn, word, quote, false_and, Bool.false_eq_true, if_false]
  | param => simp only [step, point, stepIn, digit, Bool.false_eq_true, if_false]
  | slash => simp only [step, point, stepIn, star, if_false]
  | dash => simp only [step, point, stepIn, dash, if_false]
  | dollarTag =>
    simp only [step, point, stepIn, dollar, word, digit, and_false, Bool.false_eq_true, if_false]
  | closing q e =>
    have other : b ≠ q.byte := by
      cases q with
      | single => exact quote
      | double => exact double
      | back => exact back
    simp only [step, point, stepIn, other, if_false]
  | _ => simp [point, Mode.closed] at closed

theorem step_space (closed : l.mode.closed = true) (space : isSpace b = true) :
    step d l b = ⟨.gap, l.toks⟩ := by
  rw [step_fresh closed (wordByte_of_isSpace space)]
  · simp [fresh, space]
  · simpa using ⟨isSpace_ne space rfl, isSpace_ne space rfl, isSpace_ne space rfl,
      isSpace_ne space rfl, isSpace_ne space rfl⟩

theorem run_spaces (closed : l.mode.closed = true) {s : GoString} (spaces : squeeze s = [])
    (some : s ≠ []) : run d l s = ⟨.gap, l.toks⟩ := by
  have all : ∀ b ∈ s, isSpace b = true := by simpa [squeeze] using spaces
  clear spaces
  induction s generalizing l with
  | nil => exact absurd rfl some
  | cons b rest ih =>
    rw [run_cons, step_space closed (all b (by simp))]
    cases rest with
    | nil => rfl
    | cons c rest =>
      exact ih rfl (by simp) (fun e mem => all e (List.mem_cons_of_mem _ mem))

theorem last_extend (l : Lex) (b : UInt8) (mode : Mode) :
    (l.extend b mode).last = l.last ++ [b] := by
  rcases List.eq_nil_or_concat' l.toks with eq | ⟨init, t, eq⟩
  · simp [Lex.extend, Lex.last, eq, extendLast]
  · simp [Lex.extend, Lex.last, eq, extendLast_append]

/-- Every token stands in the text, and a pending one at its end. -/
def Lex.Sited (s : GoString) (l : Lex) : Prop :=
  (∀ t ∈ l.toks, t <:+: s) ∧ (l.mode ≠ .gap → l.last <:+ s)

theorem step_sited {s : GoString} (ok : l.Ok) (sited : l.Sited s) :
    (step d l b).Sited (s ++ [b]) := by
  have old : ∀ t ∈ l.toks, t <:+: s ++ [b] := fun t mem =>
    (sited.1 t mem).trans (List.prefix_append ..).isInfix
  have pushed (mode : Mode) : (l.push b mode).Sited (s ++ [b]) := by
    refine ⟨fun t mem => ?_, fun _ => by simp [Lex.push, Lex.last]⟩
    rcases List.mem_append.mp mem with mem | mem
    · exact old t mem
    · obtain rfl : t = [b] := by simpa using mem
      exact (List.suffix_append s [b]).isInfix
  have ended : (⟨.gap, l.toks⟩ : Lex).Sited (s ++ [b]) := ⟨old, fun pending => absurd rfl pending⟩
  rcases step_cases d l b with eq | ⟨pending, mode, eq⟩ | ⟨_, eq⟩
  · rw [eq]
    rcases fresh_cases d b with ⟨-, eq⟩ | ⟨-, mode, -, eq⟩
    · rw [eq]
      exact ended
    · rw [eq]
      exact pushed mode
  · rw [eq]
    obtain ⟨init, u, toks⟩ := (List.eq_nil_or_concat' l.toks).resolve_left (ok.resolve_left pending)
    have last : l.last = u := by simp [Lex.last, toks]
    have grown : u ++ [b] <:+ s ++ [b] := by
      obtain ⟨front, eq⟩ := sited.2 pending
      exact ⟨front, by rw [← last, ← List.append_assoc, eq]⟩
    refine ⟨fun t mem => ?_, fun _ => by rw [last_extend, last]; exact grown⟩
    rw [Lex.extend, toks, extendLast_append] at mem
    rcases List.mem_append.mp mem with mem | mem
    · exact old t (by simp [toks, mem])
    · obtain rfl : t = u ++ [b] := by simpa using mem
      exact grown.isInfix
  · rw [eq]
    exact ended

theorem tokens_infix (d : Dialect) (s : GoString) : ∀ t ∈ tokens d s, t <:+: s := by
  have sited : (lex d s).Sited s := by
    induction s using List.reverseRecOn with
    | nil => exact ⟨by simp [lex, run], fun pending => absurd rfl pending⟩
    | append_singleton s b ih =>
      rw [lex_snoc]
      exact step_sited (lex_ok d s) ih
  exact sited.1

def solo (b : UInt8) : Prop := b = 40 ∨ b = 41 ∨ b = 44 ∨ b = 63

theorem step_solo (closed : l.mode.closed = true) (alone : solo b) :
    step d l b = ⟨.gap, l.toks ++ [[b]]⟩ := by
  rcases alone with rfl | rfl | rfl | rfl
  all_goals
    rw [step_fresh closed (by decide) (by decide)]
    rfl

end TQDBProxy.SqlTokens
