import TQDBProxy.SqlLexerModes

/-! Open quotes and comments. A token of letters leaves nothing open, and what is
open takes in the bytes of a generated value tuple without being closed: they
hold no quote, no comment end, and no dollar that could end a dollar quote. -/

namespace TQDBProxy.SqlTokens

variable {d : Dialect} {l : Lex} {b : UInt8}

/-- The modes of a token that started with a quote, a comment or a dollar. -/
def Mode.marked : Mode → Bool
  | .gap | .word | .param | .slash | .dash | .dollarTag => false
  | _ => true

theorem closed_of_not_marked {mode : Mode} (plain : mode.marked = false) : mode.closed = true := by
  cases mode <;> simp_all [Mode.marked, Mode.closed]

def Lex.Marked (l : Lex) : Prop := l.mode.marked = true → ∃ b ∈ l.last, isLetter b = false

theorem fresh_marked : (fresh d l b).Marked := by
  rcases fresh_cases d b with ⟨-, eq⟩ | ⟨-, mode, starts, eq⟩
  · rw [eq]
    exact fun marked => by cases marked
  · rw [eq]
    intro marked
    refine ⟨b, by simp [Lex.push, Lex.last], ?_⟩
    change mode.marked = true at marked
    cases mode with
    | gap | word | param | slash | dash | dollarTag => cases marked
    | quoted | lineComment => exact starts
    | _ => cases starts

theorem step_marked (inv : l.Marked) : (step d l b).Marked := by
  have keep (mode : Mode) (was : l.mode.marked = true) : (l.extend b mode).Marked := by
    intro _
    obtain ⟨c, mem, other⟩ := inv was
    exact ⟨c, by simp [last_extend, mem], other⟩
  have mark (mode : Mode) (other : isLetter b = false) : (l.extend b mode).Marked :=
    fun _ => ⟨b, by simp [last_extend], other⟩
  have plain (mode : Mode) (ts : List GoString) (unmarked : mode.marked = false) :
      Lex.Marked ⟨mode, ts⟩ := fun marked => absurd marked (by simp [unmarked])
  unfold step
  cases point : l.mode with
  | gap => exact fresh_marked
  | word =>
    rw [stepIn]
    split_ifs with word quote
    · exact plain _ _ rfl
    · exact mark _ (by simp [quote.1]; rfl)
    · exact fresh_marked
  | param =>
    rw [stepIn]
    split_ifs
    · exact plain _ _ rfl
    · exact fresh_marked
  | slash | dash =>
    rw [stepIn]
    split_ifs with sign
    · exact mark _ (by simp [sign]; rfl)
    · exact mark _ (by simp [sign]; rfl)
    · exact fresh_marked
  | dollarTag =>
    rw [stepIn]
    split_ifs with dollar
    · exact mark _ (by simp [dollar]; rfl)
    · exact plain _ _ rfl
    · exact plain _ _ rfl
    · exact fresh_marked
  | closing | dashDash =>
    rw [stepIn]
    split_ifs
    all_goals first
      | exact fresh_marked
      | exact keep _ (by simp [point, Mode.marked])
  | lineComment =>
    rw [stepIn]
    split_ifs
    · exact plain _ _ rfl
    · exact keep _ (by simp [point, Mode.marked])
  | _ => exact keep _ (by simp [point, Mode.marked])

theorem lex_marked (d : Dialect) (s : GoString) : (lex d s).Marked := by
  induction s using List.reverseRecOn with
  | nil => exact fun marked => absurd marked (by simp [lex, run, Mode.marked])
  | append_singleton s b ih =>
    rw [lex_snoc]
    exact step_marked ih

theorem closed_of_letters {s : GoString} {init : List GoString} {t : GoString}
    (toks : tokens d s = init ++ [t]) (letters : ∀ b ∈ t, isLetter b = true) :
    (lex d s).mode.closed = true := by
  refine closed_of_not_marked ?_
  by_contra marked
  obtain ⟨b, mem, other⟩ := lex_marked d s (by simpa using marked)
  have last : (lex d s).last = t := by
    rw [Lex.last, ← tokens, toks]
    simp
  rw [last] at mem
  simp [letters b mem] at other

theorem executing_cases (star : Bool) (b : UInt8) (next : Mode) :
    (∃ inner star', executing star b next = .executed inner star') ∨
      b = 47 ∧ executing star b next = .gap := by
  unfold executing
  split_ifs with ends
  · exact .inr ⟨ends.2, rfl⟩
  · cases next <;> exact .inl ⟨_, _, rfl⟩

theorem dashDash_of_step (dashes : (step d l b).mode = .dashDash) : b = 45 := by
  by_contra ne
  have never : (fresh d l b).mode ≠ .dashDash := by
    rcases fresh_cases d b with ⟨-, eq⟩ | ⟨-, mode, starts, eq⟩
    · simp [eq]
    · rw [eq]
      rintro rfl
      cases starts
  revert dashes
  unfold step
  cases point : l.mode with
  | gap => exact never
  | dash => simpa only [stepIn, ne, if_false] using never
  | dashDash =>
    simp only [stepIn, ne, if_false]
    split_ifs <;> first | exact never | simp [Lex.extend]
  | blockStar n =>
    simp only [stepIn, Lex.extend]
    split_ifs
    · cases n <;> simp
    all_goals simp
  | executed inner star =>
    simp only [stepIn, Lex.extend]
    rcases executing_cases star b (stepIn d inner ⟨inner, []⟩ b).mode with ⟨_, _, eq⟩ | ⟨-, eq⟩
    all_goals simp [eq]
  | escaped => simp [stepIn, Lex.extend]
  | _ =>
    rw [stepIn]
    split_ifs <;> first | exact never | simp [Lex.extend]

/-- A dollar quote's tag ends with a dollar after a byte of a word. -/
def Lex.Tagged (l : Lex) : Prop :=
  (l.mode = .dollarTag → ∃ front c, l.last = front ++ [c] ∧ wordByte c = true) ∧
    ∀ tag, l.mode = .dollar tag → ∃ front c, tag = front ++ [c, 36] ∧ wordByte c = true

def Mode.tagFree : Mode → Bool
  | .dollarTag | .dollar _ => false
  | _ => true

theorem tagged_of_tagFree (free : l.mode.tagFree = true) : l.Tagged := by
  refine ⟨fun eq => ?_, fun tag eq => ?_⟩
  all_goals
    rw [eq] at free
    exact absurd free (by simp [Mode.tagFree])

theorem fresh_tagged : (fresh d l b).Tagged := by
  rcases fresh_cases d b with ⟨-, eq⟩ | ⟨-, mode, starts, eq⟩
  · rw [eq]
    exact tagged_of_tagFree rfl
  · rw [eq]
    cases mode with
    | dollarTag =>
      obtain rfl : b = 36 := starts
      exact ⟨fun _ => ⟨[], 36, by simp [Lex.push, Lex.last], rfl⟩, by simp [Lex.push]⟩
    | dollar tag => cases starts
    | _ => exact tagged_of_tagFree rfl

theorem step_tagged (inv : l.Tagged) : (step d l b).Tagged := by
  unfold step
  cases point : l.mode with
  | gap => exact fresh_tagged
  | dollarTag =>
    rw [stepIn]
    split_ifs with dollar digit word
    · obtain ⟨front, c, last, wordc⟩ := inv.1 point
      refine ⟨by simp [Lex.extend], fun tag eq => ⟨front, c, ?_, wordc⟩⟩
      obtain rfl : l.last ++ [b] = tag := by simpa [Lex.extend] using eq
      simp [last, dollar]
    · exact tagged_of_tagFree rfl
    · exact ⟨fun _ => ⟨l.last, b, last_extend .., word⟩, by simp [Lex.extend]⟩
    · exact fresh_tagged
  | blockStar n =>
    refine tagged_of_tagFree ?_
    simp only [stepIn, Lex.extend]
    split_ifs
    · cases n <;> rfl
    all_goals rfl
  | dollar tag =>
    rw [stepIn]
    refine ⟨?_, fun tag' eq => inv.2 tag' ?_⟩
    · simp only [Lex.extend]
      split_ifs <;> simp
    · simp only [Lex.extend] at eq
      split_ifs at eq
      exact point.trans eq
  | executed inner star =>
    refine tagged_of_tagFree ?_
    simp only [stepIn, Lex.extend]
    rcases executing_cases star b (stepIn d inner ⟨inner, []⟩ b).mode with ⟨_, _, eq⟩ | ⟨-, eq⟩
    all_goals simp [eq, Mode.tagFree]
  | escaped => exact tagged_of_tagFree rfl
  | _ =>
    rw [stepIn]
    split_ifs
    all_goals first
      | exact fresh_tagged
      | exact tagged_of_tagFree rfl

theorem lex_tagged (d : Dialect) (s : GoString) : (lex d s).Tagged := by
  induction s using List.reverseRecOn with
  | nil => exact tagged_of_tagFree rfl
  | append_singleton s b ih =>
    rw [lex_snoc]
    exact step_tagged ih

/-- Bytes that no quote, comment or dollar quote ends with. -/
def calm (b : UInt8) : Bool := b == 32 || b == 40 || b == 41 || b == 44 || b == 63 || isDigit b

/-- Calm bytes, and dollars after an opening parenthesis or a comma. -/
def quiet (prev : UInt8) : GoString → Bool
  | [] => true
  | b :: rest => (calm b || (b == 36 && (prev == 40 || prev == 44))) && quiet b rest

structure Lex.Open (l : Lex) : Prop where
  opened : l.mode.closed = false
  single : l.mode ≠ .dashDash
  tagged : l.Tagged

theorem calm_ne (still : calm b = true) {c : UInt8} (other : calm c = false) : b ≠ c := by
  intro eq
  simp [eq, other] at still

/-- Bytes with no meaning of their own inside a quote or a comment. -/
def inert (b : UInt8) : Bool := !([10, 34, 36, 39, 42, 47, 92, 96] : GoString).contains b

theorem step_still (opened : l.mode.closed = false) (single : l.mode ≠ .dashDash)
    (still : b ∉ ([10, 34, 39, 42, 47, 92, 96] : GoString))
    (tag : ∀ tag, l.mode = .dollar tag → b = 36 → ¬ tag.isSuffixOf (l.last ++ [b])) :
    ∃ mode, step d l b = l.extend b mode ∧ mode.closed = false ∧ mode ≠ .dashDash := by
  simp only [List.mem_cons, List.not_mem_nil, not_or, or_false] at still
  obtain ⟨newline, double, quote, star, slash, escape, back⟩ := still
  unfold step
  cases point : l.mode with
  | gap | word | param | slash | dash | dollarTag | closing => simp [point, Mode.closed] at opened
  | dashDash => exact absurd point single
  | quoted q e =>
    have other : b ≠ q.byte := by cases q <;> assumption
    exact ⟨_, rfl, by simp [escape, other, Mode.closed], by simp [escape, other]⟩
  | escaped => exact ⟨_, rfl, rfl, by simp⟩
  | lineComment => exact ⟨.lineComment, by simp [stepIn, newline], rfl, by simp⟩
  | block | blockStar | blockSlash =>
    exact ⟨_, rfl, by simp [star, slash, Mode.closed], by simp [star, slash]⟩
  | dollar name =>
    have apart : ¬ (b = 36 ∧ 2 * name.length ≤ l.last.length + 1 ∧
        name.isSuffixOf (l.last ++ [b]) = true) := fun ends => tag name point ends.1 ends.2.2
    exact ⟨.dollar name, by rw [stepIn, if_neg apart], rfl, by simp⟩
  | opened maria =>
    refine ⟨_, rfl, ?_, ?_⟩
    all_goals split_ifs <;> simp [Mode.closed]
  | executed inner after =>
    obtain ⟨_, _, eq⟩ := (executing_cases after b (stepIn d inner ⟨inner, []⟩ b).mode).resolve_right
      fun ends => slash ends.1
    exact ⟨.executed _ _, congrArg (l.extend b) eq, rfl, by simp⟩

theorem step_inert (opened : l.mode.closed = false) (single : l.mode ≠ .dashDash)
    (still : inert b = true) :
    ∃ mode, step d l b = l.extend b mode ∧ mode.closed = false ∧ mode ≠ .dashDash := by
  have others : b ∉ ([10, 34, 36, 39, 42, 47, 92, 96] : GoString) := by simpa [inert] using still
  simp only [List.mem_cons, not_or] at others
  exact step_still opened single (by simp [others]) fun _ _ dollar => absurd dollar others.2.2.1

theorem step_dashes_blank (dashes : l.mode = .dashDash) :
    step d l 32 = l.extend 32 .lineComment := by
  simp only [step, dashes]
  rfl

theorem run_inert (opened : l.mode.closed = false) (single : l.mode ≠ .dashDash) {s : GoString}
    (still : ∀ b ∈ s, inert b = true) : (run d l s).mode.closed = false := by
  induction s generalizing l with
  | nil => exact opened
  | cons b s ih =>
    obtain ⟨mode, eq, opened, single⟩ := step_inert (d := d) opened single (still b (by simp))
    rw [run_cons, eq]
    exact ih opened single fun c mem => still c (List.mem_cons_of_mem _ mem)

theorem lex_inert {s t : GoString} (opened : (lex d s).mode.closed = false)
    (still : ∀ b ∈ t, inert b = true) : (lex d (s ++ 32 :: t)).mode.closed = false := by
  rw [lex_append]
  by_cases single : (lex d s).mode = .dashDash
  · rw [run_cons, step_dashes_blank single]
    exact run_inert rfl (by simp [Lex.extend]) still
  · exact run_inert opened single (by simpa using ⟨rfl, still⟩)

theorem step_calm (open_ : l.Open) (still : calm b = true) :
    ∃ mode, step d l b = l.extend b mode ∧ mode.closed = false ∧ mode ≠ .dashDash := by
  refine step_inert open_.opened open_.single ?_
  simp [inert, calm_ne still (c := 10) rfl, calm_ne still (c := 34) rfl,
    calm_ne still (c := 36) rfl,
    calm_ne still (c := 39) rfl, calm_ne still (c := 42) rfl, calm_ne still (c := 47) rfl,
    calm_ne still (c := 92) rfl, calm_ne still (c := 96) rfl]

theorem step_dollar {front : GoString} {prev : UInt8} (open_ : l.Open)
    (last : l.last = front ++ [prev]) (mark : prev = 40 ∨ prev = 44) :
    ∃ mode, step d l 36 = l.extend 36 mode ∧ mode.closed = false ∧ mode ≠ .dashDash := by
  refine step_still open_.opened open_.single (by decide) fun tag point _ => ?_
  obtain ⟨front', c, rfl, word⟩ := open_.tagged.2 tag point
  rw [List.isSuffixOf_iff_suffix, last]
  rintro ⟨z, eq⟩
  have same : (z ++ front') ++ [c, 36] = front ++ [prev, 36] := by simpa using eq
  have heads := (List.append_inj' same rfl).2
  obtain rfl : c = prev := by simpa using heads
  rcases mark with rfl | rfl <;> simp [wordByte, isLetter, isDigit] at word

theorem length_extendLast {ts : List GoString} (some : ts ≠ []) :
    (extendLast ts b).length = ts.length := by
  obtain ⟨init, t, rfl⟩ := (List.eq_nil_or_concat' ts).resolve_left some
  simp [extendLast_append]

theorem run_quiet {front : GoString} {prev : UInt8} (ok : l.toks ≠ []) (open_ : l.Open)
    (last : l.last = front ++ [prev]) {s : GoString} (still : quiet prev s = true) :
    (run d l s).toks.length = l.toks.length := by
  induction s generalizing l front prev with
  | nil => rfl
  | cons b rest ih =>
    simp only [quiet, Bool.and_eq_true, Bool.or_eq_true] at still
    obtain ⟨byte, still⟩ := still
    have moved : ∃ mode, step d l b = l.extend b mode ∧ mode.closed = false ∧ mode ≠ .dashDash := by
      rcases byte with calmed | ⟨dollar, mark⟩
      · exact step_calm open_ calmed
      · obtain rfl : b = 36 := by simpa using dollar
        exact step_dollar open_ last (by simpa using mark)
    obtain ⟨mode, eq, opened, single⟩ := moved
    have next : (l.extend b mode).Open := ⟨opened, single, eq ▸ step_tagged open_.tagged⟩
    rw [run_cons, eq, ih (extendLast_ne_nil _) next (last_extend l b mode) still]
    exact length_extendLast ok

theorem quiet_append (prev : UInt8) (s t : GoString) :
    quiet prev (s ++ t) = (quiet prev s && quiet (s.getLastD prev) t) := by
  induction s generalizing prev with
  | nil => simp [quiet]
  | cons b rest ih =>
    rw [List.cons_append, quiet, quiet, ih, List.getLastD_cons, Bool.and_assoc]

end TQDBProxy.SqlTokens
