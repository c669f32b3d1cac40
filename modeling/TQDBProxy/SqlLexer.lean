import Mathlib.Data.List.Infix
import Mathlib.Data.List.Induction
import TQDBProxy.GoStrings

/-! SQL text as tokens, in the two dialects of the backends. The lexer is a machine over
bytes; strings, quoted names, comments and dollar quotes are tokens of their own with
their delimiters, also where they are left open at the end. In MySQL two dashes start a
comment only before white space or a control character, so a run of dashes stays one token,
with the comment that may follow its last two; a comment that starts with an exclamation
mark is executed, and what ends it is read as code. -/

namespace TQDBProxy.SqlTokens

inductive Dialect where
  | mysql | postgres
  deriving DecidableEq

inductive Quote where
  | single | double | back
  deriving DecidableEq

def Quote.byte : Quote → UInt8
  | .single => 39
  | .double => 34
  | .back => 96

inductive Mode where
  | gap
  | word
  | param
  | slash
  | dash
  | dollarTag
  | closing (quote : Quote) (escapes : Bool)
  | dashDash
  | quoted (quote : Quote) (escapes : Bool)
  | escaped (quote : Quote)
  | lineComment
  | block (depth : Nat)
  | blockStar (depth : Nat)
  | blockSlash (depth : Nat)
  | dollar (tag : GoString)
  /-- After the two bytes that open a comment, or the letter that may follow them. -/
  | opened (maria : Bool)
  /-- In an executable comment whose text is in the mode `inner`, perhaps after a star. -/
  | executed (inner : Mode) (star : Bool)
  deriving DecidableEq

def Mode.closed : Mode → Bool
  | .gap | .word | .param | .slash | .dash | .dollarTag | .closing _ _ => true
  | _ => false

structure Lex where
  mode : Mode
  toks : List GoString
  deriving DecidableEq

def isSpace (b : UInt8) : Bool := b == 32 || (9 ≤ b && b ≤ 13)

def isControl (b : UInt8) : Bool := b ≤ 32 || b == 127

def isDigit (b : UInt8) : Bool := 48 ≤ b && b ≤ 57

def isLetter (b : UInt8) : Bool := (65 ≤ b && b ≤ 90) || (97 ≤ b && b ≤ 122)

def wordByte (b : UInt8) : Bool := isLetter b || isDigit b || b == 95 || b == 36 || 128 ≤ b

def extendLast : List GoString → UInt8 → List GoString
  | [], b => [[b]]
  | [t], b => [t ++ [b]]
  | t :: u :: rest, b => t :: extendLast (u :: rest) b

def Lex.last (l : Lex) : GoString := l.toks.getLastD []

def Lex.push (l : Lex) (b : UInt8) (mode : Mode) : Lex := ⟨mode, l.toks ++ [[b]]⟩

def Lex.extend (l : Lex) (b : UInt8) (mode : Mode) : Lex := ⟨mode, extendLast l.toks b⟩

def fresh (d : Dialect) (l : Lex) (b : UInt8) : Lex :=
  if isSpace b then ⟨.gap, l.toks⟩
  else if b = 39 then l.push b (.quoted .single (d = .mysql))
  else if b = 34 then l.push b (.quoted .double (d = .mysql))
  else if b = 96 ∧ d = .mysql then l.push b (.quoted .back false)
  else if b = 47 then l.push b .slash
  else if b = 45 then l.push b .dash
  else if b = 35 ∧ d = .mysql then l.push b .lineComment
  else if b = 36 ∧ d = .postgres then l.push b .dollarTag
  else if wordByte b then l.push b .word
  else l.push b .gap

/-- The mode after a byte of an executable comment whose text is then in the mode `next`. A
second opening changes nothing there, and the first end ends the comment. -/
def executing (star : Bool) (b : UInt8) (next : Mode) : Mode :=
  if star ∧ b = 47 then .gap
  else
    match next with
    | .executed _ _ => .executed .gap false
    | mode => .executed mode (b = 42 ∧ mode = .gap)

def stepIn (d : Dialect) : Mode → Lex → UInt8 → Lex
  | .gap, l, b => fresh d l b
  | .word, l, b =>
    if wordByte b then l.extend b .word
    else if b = 39 ∧ d = .postgres ∧ (l.last = [69] ∨ l.last = [101]) then
      l.extend b (.quoted .single true)
    else fresh d l b
  | .param, l, b => if isDigit b then l.extend b .param else fresh d l b
  | .slash, l, b =>
    if b = 42 then l.extend b (if d = .mysql then .opened false else .block 0) else fresh d l b
  | .dash, l, b =>
    if b = 45 then l.extend b (if d = .mysql then .dashDash else .lineComment) else fresh d l b
  | .dollarTag, l, b =>
    if b = 36 then l.extend b (.dollar (l.last ++ [b]))
    else if l.last = [36] ∧ isDigit b then l.extend b .param
    else if wordByte b then l.extend b .dollarTag
    else fresh d l b
  | .closing q e, l, b => if b = q.byte then l.extend b (.quoted q e) else fresh d l b
  | .dashDash, l, b =>
    if b = 45 then l.extend b .dashDash
    else if isControl b then l.extend b (if b = 10 then .gap else .lineComment)
    else fresh d l b
  | .quoted q e, l, b =>
    l.extend b (if b = 92 ∧ e then .escaped q else if b = q.byte then .closing q e else .quoted q e)
  | .escaped q, l, b => l.extend b (.quoted q true)
  | .lineComment, l, b => if b = 10 then ⟨.gap, l.toks⟩ else l.extend b .lineComment
  | .block n, l, b =>
    l.extend b (if b = 42 then .blockStar n
      else if b = 47 ∧ d = .postgres then .blockSlash n else .block n)
  | .blockStar n, l, b =>
    l.extend b (if b = 47 then (match n with | 0 => .gap | n + 1 => .block n)
      else if b = 42 then .blockStar n else .block n)
  | .blockSlash n, l, b =>
    l.extend b (if b = 42 then .block (n + 1) else if b = 47 then .blockSlash n else .block n)
  | .dollar tag, l, b =>
    l.extend b (if b = 36 ∧ 2 * tag.length ≤ l.last.length + 1 ∧ tag.isSuffixOf (l.last ++ [b])
      then .gap else .dollar tag)
  | .opened maria, l, b =>
    l.extend b (if b = 33 then .executed .gap false
      else if b = 77 ∧ !maria then .opened true else if b = 42 then .blockStar 0 else .block 0)
  | .executed inner star, l, b =>
    l.extend b (executing star b (stepIn d inner ⟨inner, []⟩ b).mode)

def step (d : Dialect) (l : Lex) (b : UInt8) : Lex := stepIn d l.mode l b

def run (d : Dialect) (l : Lex) (s : GoString) : Lex := s.foldl (step d) l

def lex (d : Dialect) (s : GoString) : Lex := run d ⟨.gap, []⟩ s

def tokens (d : Dialect) (s : GoString) : List GoString := (lex d s).toks

def isKeyword (keyword t : GoString) : Bool := t.map Strings.upperByte == keyword

theorem run_append (d : Dialect) (l : Lex) (s t : GoString) :
    run d l (s ++ t) = run d (run d l s) t := by
  simp [run]

theorem lex_append (d : Dialect) (s t : GoString) : lex d (s ++ t) = run d (lex d s) t :=
  run_append d _ s t

theorem run_cons (d : Dialect) (l : Lex) (b : UInt8) (s : GoString) :
    run d l (b :: s) = run d (step d l b) s := rfl

theorem extendLast_append (init : List GoString) (t : GoString) (b : UInt8) :
    extendLast (init ++ [t]) b = init ++ [t ++ [b]] := by
  induction init with
  | nil => rfl
  | cons u rest ih =>
    cases rest with
    | nil => rfl
    | cons v rest => simpa [extendLast] using ih

inductive Grow (b : UInt8) : List GoString → List GoString → Prop where
  | skip (ts : List GoString) : isSpace b = true → Grow b ts ts
  | push (ts : List GoString) : isSpace b = false → Grow b ts (ts ++ [[b]])
  | extend (init : List GoString) (t : GoString) : Grow b (init ++ [t]) (init ++ [t ++ [b]])

def Lex.Ok (l : Lex) : Prop := l.mode = .gap ∨ l.toks ≠ []

variable {d : Dialect} {l : Lex} {b : UInt8}

def Starts (b : UInt8) : Mode → Prop
  | .gap | .word | .slash | .dash => True
  | .quoted _ _ | .lineComment => isLetter b = false
  | .dollarTag => b = 36
  | _ => False

theorem push_of_ite {c : Prop} [Decidable c] {mode : Mode} {f : Lex → Lex}
    (starts : c → Starts b mode) (pushes : ∃ mode, Starts b mode ∧ ∀ l, f l = l.push b mode) :
    ∃ mode', Starts b mode' ∧ ∀ l : Lex, (if c then l.push b mode else f l) = l.push b mode' := by
  by_cases holds : c
  · exact ⟨mode, starts holds, fun l => if_pos holds⟩
  · obtain ⟨mode', started, eq⟩ := pushes
    exact ⟨mode', started, fun l => (if_neg holds).trans (eq l)⟩

theorem fresh_cases (d : Dialect) (b : UInt8) :
    (isSpace b = true ∧ ∀ l, fresh d l b = ⟨.gap, l.toks⟩) ∨
      (isSpace b = false ∧ ∃ mode, Starts b mode ∧ ∀ l, fresh d l b = l.push b mode) := by
  cases space : isSpace b with
  | true => exact .inl ⟨rfl, fun l => by rw [fresh, if_pos space]⟩
  | false =>
    refine .inr ⟨rfl, ?_⟩
    simp only [fresh, space, Bool.false_eq_true, if_false]
    refine push_of_ite (by rintro rfl; rfl) ?_
    refine push_of_ite (by rintro rfl; rfl) ?_
    refine push_of_ite (by rintro ⟨rfl, -⟩; rfl) ?_
    refine push_of_ite (fun _ => trivial) (push_of_ite (fun _ => trivial) ?_)
    refine push_of_ite (by rintro ⟨rfl, -⟩; rfl) ?_
    refine push_of_ite (by rintro ⟨rfl, -⟩; rfl) ?_
    exact push_of_ite (fun _ => trivial) ⟨.gap, trivial, fun _ => rfl⟩

theorem step_cases (d : Dialect) (l : Lex) (b : UInt8) :
    step d l b = fresh d l b ∨ (l.mode ≠ .gap ∧ ∃ mode, step d l b = l.extend b mode) ∨
      (isSpace b = true ∧ step d l b = ⟨.gap, l.toks⟩) := by
  unfold step
  cases point : l.mode with
  | gap => exact .inl rfl
  | lineComment =>
    rw [stepIn]
    split_ifs with newline
    · subst newline
      exact .inr (.inr ⟨rfl, rfl⟩)
    · exact .inr (.inl ⟨by simp, _, rfl⟩)
  | word | param | slash | dash | dollarTag | closing | dashDash =>
    rw [stepIn]
    split_ifs
    all_goals first
      | exact .inl rfl
      | exact .inr (.inl ⟨by simp, _, rfl⟩)
  | _ => exact .inr (.inl ⟨by simp, _, rfl⟩)

theorem grow_extend (mode : Mode) (some : l.toks ≠ []) : Grow b l.toks (l.extend b mode).toks := by
  obtain ⟨init, t, eq⟩ := (List.eq_nil_or_concat' l.toks).resolve_left some
  rw [Lex.extend, eq, extendLast_append]
  exact .extend init t

theorem fresh_grow : Grow b l.toks (fresh d l b).toks := by
  rcases fresh_cases d b with ⟨space, eq⟩ | ⟨other, mode, -, eq⟩
  · rw [eq]
    exact .skip _ space
  · rw [eq]
    exact .push _ other

theorem step_grow (ok : l.Ok) : Grow b l.toks (step d l b).toks := by
  rcases step_cases d l b with eq | ⟨pending, mode, eq⟩ | ⟨space, eq⟩
  · rw [eq]
    exact fresh_grow
  · rw [eq]
    exact grow_extend mode (ok.resolve_left pending)
  · rw [eq]
    exact .skip _ space

theorem extendLast_ne_nil (ts : List GoString) : extendLast ts b ≠ [] := by
  cases ts with
  | nil => simp [extendLast]
  | cons t rest => cases rest <;> simp [extendLast]

theorem step_ok : (step d l b).Ok := by
  rcases step_cases d l b with eq | ⟨_, mode, eq⟩ | ⟨_, eq⟩
  · rw [eq]
    rcases fresh_cases d b with ⟨-, passed⟩ | ⟨-, mode, -, pushed⟩
    · rw [passed]
      exact .inl rfl
    · rw [pushed]
      exact .inr (by simp [Lex.push])
  · rw [eq]
    exact .inr (extendLast_ne_nil _)
  · rw [eq]
    exact .inl rfl

theorem run_ok (ok : l.Ok) (s : GoString) : (run d l s).Ok := by
  induction s generalizing l with
  | nil => exact ok
  | cons b rest ih => exact ih step_ok

theorem lex_ok (d : Dialect) (s : GoString) : (lex d s).Ok := run_ok (.inl rfl) s

theorem lex_snoc (d : Dialect) (s : GoString) (b : UInt8) :
    lex d (s ++ [b]) = step d (lex d s) b := lex_append d s [b]

def squeeze (s : GoString) : GoString := s.filter (!isSpace ·)

theorem squeeze_append (s t : GoString) : squeeze (s ++ t) = squeeze s ++ squeeze t :=
  List.filter_append ..

theorem Grow.squeeze {ts us : List GoString} (grow : Grow b ts us) :
    squeeze us.flatten = squeeze ts.flatten ++ squeeze [b] := by
  cases grow with
  | skip _ space => simp [SqlTokens.squeeze, space]
  | push ts space => simp [SqlTokens.squeeze]
  | extend init t => simp [SqlTokens.squeeze]

theorem squeeze_tokens (d : Dialect) (s : GoString) :
    squeeze (tokens d s).flatten = squeeze s := by
  induction s using List.reverseRecOn with
  | nil => rfl
  | append_singleton s b ih =>
    have grow : Grow b (tokens d s) (tokens d (s ++ [b])) := by
      rw [tokens, tokens, lex_snoc]
      exact step_grow (lex_ok d s)
    rw [grow.squeeze, ih, squeeze_append]

theorem tokens_head (d : Dialect) (s : GoString) :
    ∀ t ∈ tokens d s, ∃ b rest, t = b :: rest ∧ isSpace b = false := by
  induction s using List.reverseRecOn with
  | nil => simp [tokens, lex, run]
  | append_singleton s b ih =>
    have grow : Grow b (tokens d s) (tokens d (s ++ [b])) := by
      rw [tokens, tokens, lex_snoc]
      exact step_grow (lex_ok d s)
    intro t mem
    generalize tokens d s = ts at ih grow
    generalize tokens d (s ++ [b]) = us at mem grow
    cases grow with
    | skip _ _ => exact ih t mem
    | push _ space =>
      rcases List.mem_append.mp mem with mem | mem
      · exact ih t mem
      · exact ⟨b, [], by simpa using mem, space⟩
    | extend init u =>
      rcases List.mem_append.mp mem with mem | mem
      · exact ih t (by simp [mem])
      · obtain ⟨c, rest, eq, space⟩ := ih u (by simp)
        exact ⟨c, rest ++ [b], by simpa [eq] using mem, space⟩

theorem run_keeps {init : List GoString} {t : GoString} (ok : l.Ok) (held : l.toks = init ++ [t])
    (s : GoString) : ∃ t' more, (run d l s).toks = init ++ t' :: more ∧ t <+: t' := by
  induction s using List.reverseRecOn with
  | nil => exact ⟨t, [], held, List.prefix_rfl⟩
  | append_singleton s b ih =>
    obtain ⟨t', more, eq, pre⟩ := ih
    have grow : Grow b (run d l s).toks (run d l (s ++ [b])).toks := by
      rw [run_append]
      exact step_grow (run_ok ok s)
    rw [eq] at grow
    generalize (run d l (s ++ [b])).toks = us at grow
    generalize same : init ++ t' :: more = ts at grow
    cases grow with
    | skip _ _ => exact ⟨t', more, same.symm, pre⟩
    | push _ _ => exact ⟨t', more ++ [[b]], by simp [← same], pre⟩
    | extend front u =>
      rcases List.eq_nil_or_concat' more with rfl | ⟨rest, v, rfl⟩
      · obtain ⟨rfl, eq⟩ := List.append_inj' same rfl
        obtain rfl : t' = u := by simpa using eq
        exact ⟨t' ++ [b], [], rfl, pre.trans (List.prefix_append ..)⟩
      · have same : (init ++ t' :: rest) ++ [v] = front ++ [u] := by simpa using same
        obtain ⟨rfl, eq⟩ := List.append_inj' same rfl
        obtain rfl : v = u := by simpa using eq
        exact ⟨t', rest ++ [v ++ [b]], by simp, pre⟩

theorem tokens_take {init : List GoString} {t : GoString} {s : GoString}
    (pre : init ++ [t] <+: tokens d s) :
    ∃ x y, s = x ++ y ∧ tokens d x = init ++ [t] ∧ x.getLast? = t.getLast? := by
  induction s using List.reverseRecOn with
  | nil => simp [tokens, lex, run] at pre
  | append_singleton s b ih =>
    have grow : Grow b (tokens d s) (tokens d (s ++ [b])) := by
      rw [tokens, tokens, lex_snoc]
      exact step_grow (lex_ok d s)
    have earlier (pre : init ++ [t] <+: tokens d s) :
        ∃ x y, s ++ [b] = x ++ y ∧ tokens d x = init ++ [t] ∧ x.getLast? = t.getLast? := by
      obtain ⟨x, y, eq, toks, last⟩ := ih pre
      exact ⟨x, y ++ [b], by simp [eq], toks, last⟩
    clear ih
    generalize olds : tokens d s = ts at earlier grow
    generalize news : tokens d (s ++ [b]) = us at pre grow
    cases grow with
    | skip _ _ => exact earlier pre
    | push _ _ =>
      rcases List.prefix_concat_iff.mp pre with eq | pre
      · obtain ⟨-, eq'⟩ := List.append_inj' eq rfl
        obtain rfl : t = [b] := by simpa using eq'
        exact ⟨s ++ [b], [], by simp, by rw [news, eq], by simp⟩
      · exact earlier pre
    | extend front u =>
      rcases List.prefix_concat_iff.mp pre with eq | pre
      · obtain ⟨-, eq'⟩ := List.append_inj' eq rfl
        obtain rfl : t = u ++ [b] := by simpa using eq'
        exact ⟨s ++ [b], [], by simp, by rw [news, eq], by simp⟩
      · exact earlier (pre.trans (List.prefix_append ..))

end TQDBProxy.SqlTokens
