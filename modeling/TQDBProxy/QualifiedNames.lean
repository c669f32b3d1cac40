import TQDBProxy.QueryHints
import TQDBProxy.TableReferences

/-! Which qualified names the parser follows. Its expression looks for a keyword and a
dotted pair in the bytes of the text. A match is a table reference when the keyword
starts a token of the code, introduces a table where it stands, and both names are written
as words or in back quotes. -/

namespace TQDBProxy

namespace SqlTokens

/-- The modes in which a letter starts a token. -/
def Mode.between : Mode → Bool
  | .gap | .param | .slash | .dash | .closing _ _ | .dashDash => true
  | _ => false

variable {l : Lex} {b : UInt8}

theorem isLetter_ne (letter : isLetter b = true) {c : UInt8} (other : isLetter c = false) :
    b ≠ c := by
  rintro rfl
  rw [letter] at other
  cases other

theorem isLetter_plain (letter : isLetter b = true) : isSpace b = false ∧ isDigit b = false ∧
    wordByte b = true := by
  have range : (65 ≤ b.toNat ∧ b.toNat ≤ 90) ∨ (97 ≤ b.toNat ∧ b.toNat ≤ 122) := by
    simpa [isLetter, UInt8.le_iff_toNat_le] using letter
  refine ⟨?_, ?_, by simp [wordByte, letter]⟩
  · rw [Bool.eq_false_iff, Ne, isSpace_iff]
    omega
  · simp only [isDigit, Bool.and_eq_false_iff, decide_eq_false_iff_not, UInt8.le_iff_toNat_le]
    simp
    omega

theorem isControl_of_isLetter (letter : isLetter b = true) : isControl b = false := by
  have range : (65 ≤ b.toNat ∧ b.toNat ≤ 90) ∨ (97 ≤ b.toNat ∧ b.toNat ≤ 122) := by
    simpa [isLetter, UInt8.le_iff_toNat_le] using letter
  simp only [isControl, Bool.or_eq_false_iff, decide_eq_false_iff_not, beq_eq_false_iff_ne, ne_eq,
    UInt8.le_iff_toNat_le, ← UInt8.toNat_inj]
  simp
  omega

theorem step_letter (between : l.mode.between = true) (letter : isLetter b = true) :
    step .mysql l b = fresh .mysql l b := by
  obtain ⟨-, digit, -⟩ := isLetter_plain letter
  have ne {c : UInt8} (other : isLetter c = false) : b ≠ c := isLetter_ne letter other
  unfold step
  cases point : l.mode with
  | gap => rfl
  | param => simp only [stepIn, digit, Bool.false_eq_true, if_false]
  | slash => simp only [stepIn, ne (c := 42) rfl, if_false]
  | dash => simp only [stepIn, ne (c := 45) rfl, if_false]
  | closing q e =>
    have other : b ≠ q.byte := by cases q <;> exact ne rfl
    simp only [stepIn, other, if_false]
  | dashDash =>
    simp only [stepIn, ne (c := 45) rfl, isControl_of_isLetter letter, Bool.false_eq_true, if_false]
  | _ => simp [point, Mode.between] at between

/-! ### Texts of names -/

theorem wordByte_ne (word : wordByte b = true) {c : UInt8} (other : wordByte c = false) :
    b ≠ c := by
  rintro rfl
  rw [word] at other
  cases other

theorem fresh_word (word : wordByte b = true) : fresh .mysql l b = l.push b .word := by
  have space : isSpace b = false := by
    by_contra space
    rw [wordByte_of_isSpace (by simpa using space)] at word
    cases word
  have ne {c : UInt8} (other : wordByte c = false) : b ≠ c := wordByte_ne word other
  simp [fresh, space, word, ne (c := 39) rfl, ne (c := 34) rfl, ne (c := 96) rfl, ne (c := 47) rfl,
    ne (c := 45) rfl, ne (c := 35) rfl]

theorem lex_word {w : GoString} (some : w ≠ []) (word : ∀ b ∈ w, wordByte b = true) :
    lex .mysql w = ⟨.word, [w]⟩ := by
  induction w using List.reverseRecOn with
  | nil => exact absurd rfl some
  | append_singleton w b ih =>
    have last := word b (by simp)
    rw [lex_snoc]
    rcases List.eq_nil_or_concat' w with rfl | ⟨init, c, rfl⟩
    · rw [show lex .mysql [] = ⟨.gap, []⟩ from rfl, show step .mysql ⟨.gap, []⟩ b =
        fresh .mysql ⟨.gap, []⟩ b from rfl,
        fresh_word last]
      rfl
    · rw [ih (by simp) fun c mem => word c (List.mem_append_left _ mem)]
      simp only [step, stepIn, last, if_true]
      rfl

theorem lex_backquoted {w : GoString} (inside : ∀ b ∈ w, b ≠ 96) :
    lex .mysql (96 :: w) = ⟨.quoted .back false, [96 :: w]⟩ := by
  induction w using List.reverseRecOn with
  | nil => rfl
  | append_singleton w b ih =>
    have last : b ≠ 96 := inside b (by simp)
    rw [← List.cons_append, lex_snoc, ih fun c mem => inside c (List.mem_append_left _ mem)]
    simp [step, stepIn, last, Quote.byte, Lex.extend, extendLast]

theorem code_first {x t : GoString} {mode : Mode} (lexed : lex .mysql x = ⟨mode, [b :: t]⟩)
    (mark : b ∉ ([35, 45, 47] : GoString)) (rest : GoString) :
    ∃ u more, code .mysql (x ++ rest) = (b :: (t ++ u)) :: more := by
  have held : (lex .mysql x).toks = [] ++ [b :: t] := by rw [lexed, List.nil_append]
  obtain ⟨t', more, eq, pre⟩ := run_keeps (d := .mysql) (lex_ok .mysql x) held (rest ++ [10])
  obtain ⟨u, rfl⟩ := pre
  refine ⟨u, significant .mysql more, ?_⟩
  rw [code, List.append_assoc, tokens, lex_append, eq, List.nil_append, significant,
    List.flatMap_cons, List.cons_append, (pieces_of_head mark _).1]
  rfl

theorem code_blank {gap : GoString} (blank : ∀ b ∈ gap, isSpace b = true) (rest : GoString) :
    code .mysql (gap ++ rest) = code .mysql rest := by
  have lexed : lex .mysql gap = ⟨.gap, []⟩ := by
    cases gap with
    | nil => rfl
    | cons b gap =>
      have spaces : squeeze (b :: gap) = [] := by simpa [squeeze] using blank
      exact run_spaces (l := ⟨.gap, []⟩) rfl spaces (List.cons_ne_nil _ _)
  rw [code_gap (by rw [lexed]), tokens, lexed]
  rfl

theorem code_dot {x t gap gap' : GoString} {mode : Mode}
    (lexed : lex .mysql x = ⟨mode, [b :: t]⟩) (closed : mode.closed = true)
    (mark : b ∉ ([35, 45, 47] : GoString)) (blank : ∀ b ∈ gap, isSpace b = true)
    (blank' : ∀ b ∈ gap', isSpace b = true) (rest : GoString) :
    code .mysql (x ++ (gap ++ 46 :: (gap' ++ rest))) = (b :: t) :: [46] :: code .mysql rest := by
  obtain ⟨mode', closed', after⟩ :
      ∃ mode', mode'.closed = true ∧ lex .mysql (x ++ gap) = ⟨mode', [b :: t]⟩ := by
    cases gap with
    | nil => exact ⟨mode, closed, by rw [List.append_nil, lexed]⟩
    | cons c gap =>
      have spaces : squeeze (c :: gap) = [] := by simpa [squeeze] using blank
      refine ⟨.gap, rfl, ?_⟩
      rw [lex_append, lexed, run_spaces closed spaces (List.cons_ne_nil _ _)]
  have apart :
      step .mysql (lex .mysql (x ++ gap)) 46 = fresh .mysql (lex .mysql (x ++ gap)) 46 := by
    rw [after]
    exact step_fresh closed' rfl (by decide)
  have first : significant .mysql (tokens .mysql (x ++ gap)) = [b :: t] := by
    rw [tokens, after, significant, List.flatMap_singleton, (pieces_of_head mark t).1]
  have dot : code .mysql (46 :: (gap' ++ rest)) = [46] :: code .mysql rest := by
    rw [← List.singleton_append, code_gap rfl, code_blank blank']
    rfl
  rw [← List.append_assoc, code_apart apart, first, dot]
  rfl

/-- The text begins with a name of the database, a dot and a name. -/
def Qualified (db s : GoString) : Prop :=
  ∃ q name more, code .mysql s = q :: [46] :: name :: more ∧ nameOf q = some db ∧ isName name = true

/-- The marks around a database name, and the one before the name after the dot. -/
def Quoted (opened db closed opened' : GoString) : Prop :=
  (opened = [] ∧ closed = [] ∧ db.all isDigit = false ∨ opened = [96] ∧ closed = [96]) ∧
    (opened' = [] ∨ opened' = [96])

instance (opened db closed opened' : GoString) : Decidable (Quoted opened db closed opened') :=
  inferInstanceAs (Decidable ((_ ∨ _) ∧ (_ ∨ _)))

variable {opened db closed gap gap' opened' name : GoString}

theorem word_mark (word : wordByte b = true) : b ∉ ([35, 45, 47] : GoString) := by
  simpa using ⟨wordByte_ne word rfl, wordByte_ne word rfl, wordByte_ne word rfl⟩

theorem code_name (mark : opened' = [] ∨ opened' = [96]) (some : name ≠ [])
    (word : ∀ b ∈ name, wordByte b = true) (rest : GoString) :
    ∃ t more, code .mysql (opened' ++ (name ++ rest)) = t :: more ∧ isName t = true := by
  rcases mark with rfl | rfl
  · obtain ⟨b, name, rfl⟩ := List.exists_cons_of_ne_nil some
    have first := word b List.mem_cons_self
    have lexed : lex .mysql [b] = ⟨.word, [[b]]⟩ :=
      lex_word (List.cons_ne_nil _ _) (by simpa using first)
    obtain ⟨u, more, eq⟩ := code_first lexed (word_mark first) (name ++ rest)
    exact ⟨_, more, eq, by simp [isName, first]⟩
  · obtain ⟨u, more, eq⟩ := code_first (x := [96]) rfl (by decide) (name ++ rest)
    exact ⟨_, more, eq, by simp [isName]⟩

theorem nameOf_word (filled : db ≠ []) (word : ∀ b ∈ db, wordByte b = true)
    (other : db.all isDigit = false) : nameOf db = some db := by
  obtain ⟨b, rest, rfl⟩ := List.exists_cons_of_ne_nil filled
  have first := word b List.mem_cons_self
  rw [nameOf, if_neg (wordByte_ne first rfl), first, other]
  rfl

theorem lex_closed (word : ∀ b ∈ db, wordByte b = true) :
    lex .mysql (96 :: (db ++ [96])) = ⟨.closing .back false, [96 :: (db ++ [96])]⟩ := by
  rw [← List.cons_append, lex_snoc, lex_backquoted fun b mem => wordByte_ne (word b mem) rfl]
  rfl

theorem nameOf_closed (db : GoString) : nameOf (96 :: (db ++ [96])) = some db := by
  simp [nameOf]

theorem qualified_of_quoted (quoted : Quoted opened db closed opened') (filled : db ≠ [])
    (word : ∀ b ∈ db, wordByte b = true) (blank : ∀ b ∈ gap, isSpace b = true)
    (blank' : ∀ b ∈ gap', isSpace b = true) (named : name ≠ [])
    (word' : ∀ b ∈ name, wordByte b = true) (rest : GoString) :
    Qualified db
      (opened ++ (db ++ (closed ++ (gap ++ 46 :: (gap' ++ (opened' ++ (name ++ rest))))))) := by
  obtain ⟨t, more, after, isTable⟩ := code_name quoted.2 named word' rest
  rcases quoted.1 with ⟨rfl, rfl, other⟩ | ⟨rfl, rfl⟩
  · obtain ⟨b, db, rfl⟩ := List.exists_cons_of_ne_nil filled
    have texts := code_dot (lex_word filled word) rfl (word_mark (word b List.mem_cons_self)) blank
      blank' (opened' ++ (name ++ rest))
    rw [after] at texts
    exact ⟨_, t, more, texts, nameOf_word filled word other, isTable⟩
  · have texts := code_dot (lex_closed word) rfl (by decide) blank blank'
      (opened' ++ (name ++ rest))
    rw [after] at texts
    refine ⟨_, t, more, ?_, nameOf_closed db, isTable⟩
    rw [← texts]
    simp

/-! ### A keyword and a qualified name -/

theorem tableDatabase_of_keyword {front keyword tail : GoString}
    (letters : ∀ b ∈ keyword, isLetter b = true) (filled : keyword ≠ [])
    (blank : ∀ b ∈ gap, isSpace b = true) (spaced : gap ≠ [])
    (between : (lex .mysql front).mode.between = true)
    (introduces : tableKeyword (significant .mysql (tokens .mysql front)) keyword = true)
    (qualified : Qualified db tail) :
    db ∈ tableDatabases (front ++ (keyword ++ (gap ++ tail))) := by
  obtain ⟨q, name, more, texts, named, isTable⟩ := qualified
  have word : ∀ b ∈ keyword, wordByte b = true := fun b mem => (isLetter_plain (letters b mem)).2.2
  have lexed : lex .mysql (keyword ++ gap) = ⟨.gap, [keyword]⟩ := by
    have spaces : squeeze gap = [] := by simpa [squeeze] using blank
    rw [lex_append, lex_word filled word, run_spaces rfl spaces spaced]
  have after : code .mysql (keyword ++ (gap ++ tail)) = keyword :: q :: [46] :: name :: more := by
    rw [← List.append_assoc, code_gap (by rw [lexed]), tokens, lexed, texts]
    obtain ⟨b, rest, rfl⟩ := List.exists_cons_of_ne_nil filled
    rw [significant, List.flatMap_singleton,
      (pieces_of_head (word_mark (word b List.mem_cons_self)) rest).1]
    rfl
  have whole : code .mysql (front ++ (keyword ++ (gap ++ tail))) =
      significant .mysql (tokens .mysql front) ++ keyword :: q :: [46] :: name :: more := by
    rw [← after]
    obtain ⟨b, rest, rfl⟩ := List.exists_cons_of_ne_nil filled
    exact code_apart (step_letter between (letters b List.mem_cons_self)) _
  rw [tableDatabases, whole]
  refine mem_referencesFrom ?_
  rw [List.nil_append, reference, introduces, isTable]
  exact named

end SqlTokens

namespace Parser

open Regex
open SqlTokens (wordByte isSpace isLetter isDigit tableDatabases tableKeyword Quoted)

/-! ### The expression of the qualified names -/

theorem isSpace_of_space {b : UInt8} (blank : space b = true) : isSpace b = true := by
  have cases : b = 32 ∨ b = 9 ∨ b = 10 ∨ b = 12 ∨ b = 13 := by
    simpa [space, or_assoc] using blank
  rcases cases with rfl | rfl | rfl | rfl | rfl <;> rfl

theorem wordByte_of_word {b : UInt8} (part : (word b || b == 36) = true) : wordByte b = true := by
  simp only [word, digit, Bool.or_eq_true, Bool.and_eq_true, decide_eq_true_eq, beq_iff_eq] at part
  simp only [wordByte, isLetter, isDigit, Bool.or_eq_true, Bool.and_eq_true, decide_eq_true_eq,
    beq_iff_eq]
  tauto

theorem takes_fqnName {w : GoString} (takes : fqnName.Takes w) :
    w ≠ [] ∧ ∀ b ∈ w, wordByte b = true := by
  have piece {u : GoString}
      (taken : (Re.any (.one fun b => word b || b == 36)
        [.text [0xC5, 0xBF], .text [0xE2, 0x84, 0xAA]]).Takes u) :
      u ≠ [] ∧ ∀ b ∈ u, wordByte b = true := by
    rcases taken with (⟨b, rfl, part⟩ | long) | kelvin
    · exact ⟨by simp, by simpa using wordByte_of_word part⟩
    · obtain rfl := (takes_text _ u).mp long
      exact ⟨by simp, List.all_eq_true.mp rfl⟩
    · obtain rfl := (takes_text _ u).mp kelvin
      exact ⟨by simp, List.all_eq_true.mp rfl⟩
  obtain ⟨u, v, rfl, first, us, rfl, rest⟩ := takes
  obtain ⟨some, word⟩ := piece first
  refine ⟨by simp [some], fun b mem => ?_⟩
  rcases List.mem_append.mp mem with mem | mem
  · exact word b mem
  · obtain ⟨u', found, inside⟩ := List.mem_flatten.mp mem
    exact (piece (rest u' found)).2 b inside

theorem upper_of_takes {l w : GoString} (plain : 83 ∉ l)
    (takes : (Re.all (l.map keywordLetter)).Takes w) :
    w.map Strings.upperByte = l := by
  induction l generalizing w with
  | nil =>
    obtain rfl : w = [] := takes
    rfl
  | cons b l ih =>
    obtain ⟨u, v, rfl, first, more⟩ := takes
    rcases takes_keywordLetter first with ⟨x, rfl, same⟩ | ⟨rfl, -⟩
    · rw [List.singleton_append, List.map_cons, same,
        ih (fun mem => plain (List.mem_cons_of_mem _ mem)) more]
    · exact absurd List.mem_cons_self plain

def fqnKeywords : List GoString := [lit "FROM", lit "JOIN", lit "INTO", lit "UPDATE"]

theorem takes_fqnKeyword {w : GoString}
    (takes : (Re.any (keyword "FROM") [keyword "JOIN", keyword "INTO", keyword "UPDATE"]).Takes w) :
    w.map Strings.upperByte ∈ fqnKeywords := by
  rcases takes with ((takes | takes) | takes) | takes
  · rw [upper_of_takes (by decide) takes]
    decide
  · rw [upper_of_takes (by decide) takes]
    decide
  · rw [upper_of_takes (by decide) takes]
    decide
  · rw [upper_of_takes (by decide) takes]
    decide

theorem isLetter_of_upper {b : UInt8} (upper : 65 ≤ Strings.upperByte b ∧
    Strings.upperByte b ≤ 90) :
    isLetter b = true := by
  rw [Strings.upperByte] at upper
  split_ifs at upper with lower
  · simp only [isLetter, lower, Bool.or_true]
  · simp [isLetter, upper]

theorem letters_of_keyword {w : GoString} (keyword : w.map Strings.upperByte ∈ fqnKeywords) :
    w ≠ [] ∧ ∀ b ∈ w, isLetter b = true := by
  have known : ∀ k ∈ fqnKeywords, k ≠ [] ∧ k.all (fun b => 65 ≤ b && b ≤ 90) = true := by decide
  obtain ⟨some, letters⟩ := known _ keyword
  refine ⟨by simpa using some, fun b mem => isLetter_of_upper ?_⟩
  have upper := List.all_eq_true.mp letters _ (List.mem_map_of_mem mem)
  simpa using upper

/-- The parts of the text at the first match of the expression. -/
structure FqnMatch (s : GoString) where
  front : GoString
  keyword : GoString
  gap : GoString
  opened : GoString
  db : GoString
  closed : GoString
  gap₁ : GoString
  gap₂ : GoString
  opened₂ : GoString
  name : GoString
  rest : GoString
  cursor : Cursor UInt8
  found : fqnRegex.find none s = some cursor
  here : fqnRegex.matchFrom ⟨front.getLast?, s.drop front.length, []⟩ some = some cursor
  text : s = front ++ (keyword ++ (gap ++ (opened ++ (db ++ (closed ++ (gap₁ ++ 46 ::
    (gap₂ ++ (opened₂ ++ (name ++ rest)))))))))
  named : cursor.submatch 2 = db
  isKeyword : keyword.map Strings.upperByte ∈ fqnKeywords
  spaced : gap ≠ [] ∧ ∀ b ∈ gap, isSpace b = true
  blank : (∀ b ∈ gap₁, isSpace b = true) ∧ ∀ b ∈ gap₂, isSpace b = true
  isDb : db ≠ [] ∧ ∀ b ∈ db, wordByte b = true
  isName : name ≠ [] ∧ ∀ b ∈ name, wordByte b = true

theorem takes_blanks {w : GoString} (takes : spaces.Takes w) : ∀ b ∈ w, isSpace b = true :=
  fun b mem => isSpace_of_space ((takes_star_one _ w).mp takes b mem)

theorem exists_fqnMatch {s : GoString} {m : Cursor UInt8} (found : fqnRegex.find none s = some m) :
    Nonempty (FqnMatch s) := by
  obtain ⟨front, back, rfl, here⟩ := fqnRegex.match_of_find found
  rw [Option.or_none] at here
  obtain ⟨w, groups, d, input, closed, captures, done⟩ := fqnRegex.captures_of_matchFrom here
  obtain rfl := Option.some.inj done
  obtain ⟨_, _, _, _, rfl, rfl, ⟨rfl, rfl⟩, more₁⟩ := captures.uncons
  obtain ⟨keyword, _, g₁, _, rfl, rfl, isKeyword, more₂⟩ := more₁.uncons
  obtain ⟨gap, _, g₂, _, rfl, rfl, spaced, more₃⟩ := more₂.uncons
  obtain ⟨opened, _, _, _, rfl, rfl, ⟨i₃, rfl, mark⟩, more₄⟩ := more₃.uncons
  obtain ⟨db, _, _, _, rfl, rfl, ⟨i₄, rfl, isDb⟩, more₅⟩ := more₄.uncons
  obtain ⟨shut, _, g₅, _, rfl, rfl, mark', more₆⟩ := more₅.uncons
  obtain ⟨gap₁, _, g₆, _, rfl, rfl, blank₁, more₇⟩ := more₆.uncons
  obtain ⟨dot, _, g₇, _, rfl, rfl, isDot, more₈⟩ := more₇.uncons
  obtain ⟨gap₂, _, g₈, _, rfl, rfl, blank₂, more₉⟩ := more₈.uncons
  obtain ⟨opened₂, _, _, _, rfl, rfl, ⟨i₉, rfl, mark₂⟩, more₁₀⟩ := more₉.uncons
  obtain ⟨name, rest, _, h, rfl, rfl, ⟨i₁₀, rfl, isName⟩, last⟩ := more₁₀.uncons
  obtain rfl : dot = [46] := (takes_text _ dot).mp isDot.takes
  obtain ⟨long, blanks⟩ := (takes_plus_one _ gap).mp spaced.takes
  -- only the groups of the names and of the marks before them are closed
  obtain rfl : g₅ = [] := mark'.nil fun _ => rfl
  obtain rfl : g₆ = [] := blank₁.nil fun _ => rfl
  obtain rfl : g₇ = [] := isDot.nil fun _ => rfl
  obtain rfl : g₈ = [] := blank₂.nil fun _ => rfl
  obtain rfl : h = [] := last.nil fun _ => rfl
  obtain rfl : i₉ = [] := mark₂.nil fun _ => rfl
  obtain rfl : i₁₀ = [] := isName.nil fun _ => rfl
  refine ⟨{ front, keyword, gap, opened, db, closed := shut, gap₁, gap₂, opened₂, name,
            rest := rest ++ d.input, cursor := d, found, here := ?_, text := ?_, named := ?_,
            isKeyword := takes_fqnKeyword isKeyword.takes,
            spaced := ⟨long, fun b mem => isSpace_of_space (blanks b mem)⟩,
            blank := ⟨takes_blanks blank₁.takes, takes_blanks blank₂.takes⟩,
            isDb := takes_fqnName isDb.takes, isName := takes_fqnName isName.takes }⟩
  · rw [List.drop_left, here]
  · change back = _ at input
    rw [input]
    simp only [List.append_assoc, List.nil_append, List.cons_append]
  · simp [Cursor.submatch, closed]

/-! ### The database that a statement is routed to -/

theorem db_applyHints (p : ParsedQuery) (query : GoString) : (applyHints p query).db = p.db := by
  unfold applyHints
  split <;> rfl

theorem db_parse (query : GoString) : (parse query).db = fqnDatabase query := by
  unfold parse
  dsimp only
  split
  · exact db_applyHints _ query
  · exact db_applyHints _ query

namespace FqnMatch

variable {s : GoString}

theorem db_eq (f : FqnMatch s) : (parse s).db = f.db := by
  rw [db_parse, fqnDatabase, f.found]
  exact f.named

/-- The match starts between two tokens, its keyword introduces a table there and its marks
are those of a qualified name. -/
def Genuine (f : FqnMatch s) : Prop :=
  (SqlTokens.lex .mysql f.front).mode.between = true ∧
    tableKeyword (SqlTokens.significant .mysql (SqlTokens.tokens .mysql f.front)) f.keyword = true ∧
    Quoted f.opened f.db f.closed f.opened₂

end FqnMatch

def quotedMatch : FqnMatch (lit "SELECT 1 FROM `shop` . users") where
  front := lit "SELECT 1 "
  keyword := lit "FROM"
  gap := [32]
  opened := [96]
  db := lit "shop"
  closed := [96]
  gap₁ := [32]
  gap₂ := [32]
  opened₂ := []
  name := lit "users"
  rest := []
  cursor := ⟨some 115, [], [(4, lit "users"), (3, []), (2, lit "shop"), (1, [96])]⟩
  found := by decide +kernel
  here := by decide +kernel
  text := by decide +kernel
  named := by decide +kernel
  isKeyword := by decide +kernel
  spaced := by decide +kernel
  blank := by decide +kernel
  isDb := by decide +kernel
  isName := by decide +kernel

end Parser

end TQDBProxy
