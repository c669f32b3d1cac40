import TQDBProxy.QueryParser
import TQDBProxy.RegexMatches
import TQDBProxy.UpperCase

/-! The type of a query behind a hint comment. The type is the first keyword of
the whole text, and only the file name of a hint is free text: it decides when it
holds a keyword of its own. -/

namespace TQDBProxy.Parser

open Regex

def QueryType.or (a b : QueryType) : QueryType := if a = .unknown then b else a

theorem QueryType.unknown_or (b : QueryType) : QueryType.unknown.or b = b := rfl

theorem QueryType.or_unknown (a : QueryType) : a.or .unknown = a := by
  cases a <;> rfl

theorem QueryType.or_eq_right {a b : QueryType} : a.or b = b ↔ a = .unknown ∨ a = b := by
  by_cases unknown : a = .unknown
  · simp [QueryType.or, unknown]
  · simp [QueryType.or, unknown]

def anyKeyword : Re UInt8 :=
  .any (keyword "SELECT") [keyword "INSERT", keyword "UPDATE", keyword "DELETE"]

def keywordLetter (b : UInt8) : Re UInt8 :=
  if b == 83 then .any (.one fun x => Strings.upperByte x == b) [.text [0xC5, 0xBF]]
  else .one fun x => Strings.upperByte x == b

theorem takes_keywordLetter {b : UInt8} {w : GoString} (takes : (keywordLetter b).Takes w) :
    (∃ x, w = [x] ∧ Strings.upperByte x = b) ∨ b = 83 ∧ w = [0xC5, 0xBF] := by
  unfold keywordLetter at takes
  split at takes
  · rename_i letter
    rcases takes with ⟨x, rfl, same⟩ | long
    · exact .inl ⟨x, rfl, beq_iff_eq.mp same⟩
    · exact .inr ⟨beq_iff_eq.mp letter, (takes_text _ w).mp long⟩
  · obtain ⟨x, rfl, same⟩ := takes
    exact .inl ⟨x, rfl, beq_iff_eq.mp same⟩

theorem toNat_lt_of_upperByte {x b : UInt8} (same : Strings.upperByte x = b)
    (ascii : b.toNat < 0x80) :
    x.toNat < 0x80 := by
  subst same
  by_contra large
  have kept : Strings.upperByte x = x := by
    have limit : ¬ x ≤ 122 := by
      rw [UInt8.le_iff_toNat_le]
      simp
      omega
    simp [Strings.upperByte, limit]
  rw [kept] at ascii
  exact large ascii

theorem runes_keyword {l : GoString} (ascii : ∀ b ∈ l, b.toNat < 0x80) {w : GoString}
    (takes : (Re.all (l.map keywordLetter)).Takes w) :
    ∃ rs : List Nat, w = Utf8.encode rs ∧ (∀ r ∈ rs, Utf8.Scalar r) ∧
      rs.map Unicode.toUpper = l.map UInt8.toNat := by
  induction l generalizing w with
  | nil =>
    obtain rfl : w = [] := takes
    exact ⟨[], rfl, by simp, rfl⟩
  | cons b l ih =>
    obtain ⟨small, rest⟩ := List.forall_mem_cons.mp ascii
    obtain ⟨u, v, rfl, first, more⟩ := takes
    obtain ⟨rs, rfl, scalars, upper⟩ := ih rest more
    rcases takes_keywordLetter first with ⟨x, rfl, same⟩ | ⟨rfl, rfl⟩
    · have low := toNat_lt_of_upperByte same small
      refine ⟨x.toNat :: rs, ?_, List.forall_mem_cons.mpr ⟨.inl (by omega), scalars⟩, ?_⟩
      · rw [Utf8.encode_cons, Utf8.encodeRune_ascii low, UInt8.ofNat_toNat]
      · rw [List.map_cons, List.map_cons, upper, ← Unicode.toNat_upperByte low, same]
    · refine ⟨383 :: rs, rfl, List.forall_mem_cons.mpr ⟨.inl (by omega), scalars⟩, ?_⟩
      rw [List.map_cons, List.map_cons, upper]
      rfl

theorem toUpper_keyword {text : String} (ascii : Strings.isAscii (lit text) = true) {w : GoString}
    (takes : (keyword text).Takes w) : Strings.toUpper w = lit text := by
  have small := Strings.isAscii_iff.mp ascii
  obtain ⟨rs, rfl, scalars, upper⟩ := runes_keyword small takes
  rw [Strings.toUpper_encode scalars, upper, Utf8.encode_ascii _ small]

theorem toUpper_anyKeyword {w : GoString} (takes : anyKeyword.Takes w) :
    Strings.toUpper w = lit "SELECT" ∨ Strings.toUpper w = lit "INSERT" ∨
      Strings.toUpper w = lit "UPDATE" ∨ Strings.toUpper w = lit "DELETE" := by
  rcases takes with ((takes | takes) | takes) | takes
  · exact .inl (toUpper_keyword (by decide) takes)
  · exact .inr (.inl (toUpper_keyword (by decide) takes))
  · exact .inr (.inr (.inl (toUpper_keyword (by decide) takes)))
  · exact .inr (.inr (.inr (toUpper_keyword (by decide) takes)))

theorem keyword_of_match {c m : Cursor UInt8} (found : queryTypeRegex.matchFrom c some = some m) :
    m.submatch 1 <+: c.input ∧ anyKeyword.Takes (m.submatch 1) := by
  have opened : (Re.group 1 anyKeyword).matchFrom c
      (fun d => (Re.all [.boundary word]).matchFrom d some) = some m := by
    have found : (if c.atBoundary word then (Re.group 1 anyKeyword).matchFrom c
        (fun d => (Re.all [.boundary word]).matchFrom d some) else none) = some m := found
    split at found
    · exact found
    · cases found
  obtain ⟨w, d, input, takes, closed⟩ := anyKeyword.takes_of_matchFrom opened
  have text : c.input.take (c.input.length - d.input.length) = w := by
    rw [input]
    simp
  rw [text] at closed
  have same : m.submatch 1 = w := by
    have closed :
      (if Cursor.atBoundary word _ then some (Cursor.mk d.before d.input ((1, w) :: d.groups))
      else none) = some m := closed
    split at closed
    · rw [← Option.some.inj closed]
      rfl
    · cases closed
  rw [same]
  exact ⟨⟨d.input, input.symm⟩, takes⟩

theorem keyword_of_find {before : Option UInt8} {s : GoString} {m : Cursor UInt8}
    (found : queryTypeRegex.find before s = some m) :
    m.submatch 1 <:+: s ∧ anyKeyword.Takes (m.submatch 1) := by
  induction s generalizing before with
  | nil =>
    obtain ⟨start, takes⟩ := keyword_of_match found
    exact ⟨start.isInfix, takes⟩
  | cons x rest ih =>
    rw [Re.find] at found
    split at found
    · rename_i m' here
      obtain rfl : m' = m := Option.some.inj found
      obtain ⟨start, takes⟩ := keyword_of_match here
      exact ⟨start.isInfix, takes⟩
    · obtain ⟨inside, takes⟩ := ih found
      exact ⟨inside.trans (List.suffix_cons x rest).isInfix, takes⟩

def foundType (m : Cursor UInt8) : QueryType :=
  let found := Strings.toUpper (m.submatch 1)
  if found = lit "SELECT" then .select
  else if found = lit "INSERT" then .insert
  else if found = lit "UPDATE" then .update
  else if found = lit "DELETE" then .delete
  else .unknown

theorem queryType_eq (s : GoString) :
    queryType s = ((queryTypeRegex.find none s).map foundType).getD .unknown := by
  unfold queryType
  cases queryTypeRegex.find none s <;> rfl

theorem foundType_view {m m' : Cursor UInt8} (same : m.view = m'.view) :
    foundType m = foundType m' := by
  have groups : m.groups = m'.groups := congrArg Prod.snd same
  have text : m.submatch 1 = m'.submatch 1 := by rw [Cursor.submatch, Cursor.submatch, groups]
  rw [foundType, foundType, text]

theorem foundType_known {before : Option UInt8} {s : GoString} {m : Cursor UInt8}
    (found : queryTypeRegex.find before s = some m) : foundType m ≠ .unknown := by
  rcases toUpper_anyKeyword (keyword_of_find found).2 with upper | upper | upper | upper
  all_goals
    simp only [foundType, upper]
    decide

theorem queryType_stop {x : UInt8} (stops : queryTypeRegex.stops x = true) (s t : GoString) :
    queryType (s ++ x :: t) = (queryType s).or (queryType t) := by
  have plain : word x = false := by
    have outer := (Bool.and_eq_true_iff.mp stops).1
    simpa [Re.stops] using outer
  have blind : queryTypeRegex.blind (some x) none = true := by
    have inner := anyKeyword.blind_of_plain (by decide) (some x) none
    have outer : (Re.boundary word).blind (some x) none = true := by simp [Re.blind, plain]
    have split : queryTypeRegex.blind (some x) none = ((Re.boundary word).blind (some x) none &&
      (anyKeyword.blind (some x) none && ((Re.boundary word).blind (some x) none && true))) := rfl
    rw [split, inner, outer]
    rfl
  have after : (queryTypeRegex.find (some x) t).map foundType =
      (queryTypeRegex.find none t).map foundType := by
    have same := queryTypeRegex.find_before blind t
    revert same
    cases queryTypeRegex.find (some x) t <;> cases queryTypeRegex.find none t <;> intro same
    · rfl
    · cases same
    · cases same
    · exact congrArg some (foundType_view (Option.some.inj same))
  rw [queryType_eq, queryType_eq, queryType_eq, ← after, queryTypeRegex.find_stop stops]
  cases left : queryTypeRegex.find none s with
  | none => rfl
  | some m => exact (if_neg (foundType_known left)).symm

theorem stops_of_space {x : UInt8} (blank : space x = true) : queryTypeRegex.stops x = true := by
  have cases : x = 32 ∨ x = 9 ∨ x = 10 ∨ x = 12 ∨ x = 13 := by
    simpa [space, or_assoc] using blank
  rcases cases with rfl | rfl | rfl | rfl | rfl <;> decide

theorem queryType_space {x : UInt8} (blank : space x = true) (s t : GoString) :
    queryType (s ++ x :: t) = (queryType s).or (queryType t) :=
  queryType_stop (stops_of_space blank) s t

theorem queryType_lead {x : UInt8} (stops : queryTypeRegex.stops x = true) (s : GoString) :
    queryType (x :: s) = queryType s := by
  rw [← List.nil_append (x :: s), queryType_stop stops]
  rfl

theorem queryType_spaces {gap : GoString} (blank : gap.all space = true) (s : GoString) :
    queryType (gap ++ s) = queryType s := by
  induction gap with
  | nil => rfl
  | cons x gap ih =>
    obtain ⟨first, rest⟩ := Bool.and_eq_true_iff.mp blank
    rw [List.cons_append, queryType_lead (stops_of_space first), ih rest]

theorem queryType_digits {s : GoString} (digits : s.all digit = true) : queryType s = .unknown := by
  rw [queryType_eq]
  cases found : queryTypeRegex.find none s with
  | none => rfl
  | some m =>
    obtain ⟨inside, takes⟩ := keyword_of_find found
    have all : ∀ b ∈ m.submatch 1, digit b = true := fun b mem =>
      List.all_eq_true.mp digits b (inside.subset mem)
    have range (b : UInt8) (isDigit : digit b = true) : 48 ≤ b.toNat ∧ b.toNat ≤ 57 := by
      simpa [digit, UInt8.le_iff_toNat_le] using isDigit
    have ascii : Strings.isAscii (m.submatch 1) = true := Strings.isAscii_iff.mpr fun b mem => by
      have limits := range b (all b mem)
      omega
    have kept : Strings.toUpper (m.submatch 1) = m.submatch 1 := by
      rw [Strings.toUpper, if_pos ascii]
      refine (List.map_congr_left fun b mem => ?_).trans (List.map_id _)
      have low : ¬ 97 ≤ b := by
        rw [UInt8.le_iff_toNat_le]
        have limits := range b (all b mem)
        simp
        omega
      simp [Strings.upperByte, low]
    -- every keyword has an E
    have letter : (69 : UInt8) ∈ m.submatch 1 := by
      rcases toUpper_anyKeyword takes with upper | upper | upper | upper
      all_goals
        rw [← kept, upper]
        decide
    exact absurd (all 69 letter) (by decide)

inductive HintKind where
  | ttl | file | line | batch
  deriving DecidableEq

def HintKind.key : HintKind → GoString
  | .ttl => lit "ttl:"
  | .file => lit "file:"
  | .line => lit "line:"
  | .batch => lit "batch:"

/-- A file name is free of white space, the other values are decimal. -/
def HintKind.takes : HintKind → UInt8 → Bool
  | .file, b => !space b
  | _, b => digit b

structure Hint where
  kind : HintKind
  value : GoString
  some : value ≠ []
  fits : value.all kind.takes = true

def Hint.text (h : Hint) : GoString := h.kind.key ++ h.value

def hintsText (parts : List (Hint × GoString)) : GoString := parts.flatMap fun p => p.1.text ++ p.2

/-- A hint comment: each kind of hint at most once, with white space between two hints. -/
structure HintComment where
  lead : GoString
  parts : List (Hint × GoString)
  blank : lead.all space = true
  gaps : ∀ p ∈ parts, p.2.all space = true
  apart : ∀ p ∈ parts.dropLast, p.2 ≠ []
  once : (parts.map (·.1.kind)).Nodup

namespace HintComment

def text (c : HintComment) : GoString := lit "/*" ++ c.lead ++ hintsText c.parts ++ lit "*/"

def value (c : HintComment) (kind : HintKind) : GoString :=
  match c.parts.find? (·.1.kind == kind) with
  | some p => p.1.value
  | none => []

end HintComment

def hintsType : List (Hint × GoString) → QueryType
  | [] => .unknown
  | p :: parts => (if p.1.kind = .file then queryType p.1.value else .unknown).or (hintsType parts)

theorem queryType_hint (h : Hint) (rest : GoString) :
    queryType (h.text ++ rest) = queryType (h.value ++ rest) := by
  obtain ⟨name, key, plain⟩ : ∃ name, h.kind.key = name ++ [58] ∧ queryType name = .unknown := by
    cases h.kind with
    | ttl => exact ⟨lit "ttl", rfl, by decide⟩
    | file => exact ⟨lit "file", rfl, by decide⟩
    | line => exact ⟨lit "line", rfl, by decide⟩
    | batch => exact ⟨lit "batch", rfl, by decide⟩
  rw [Hint.text, key, List.append_assoc, List.append_assoc, List.singleton_append,
    queryType_stop (by decide), plain, QueryType.unknown_or]

theorem queryType_value (h : Hint) :
    queryType h.value = if h.kind = .file then queryType h.value else .unknown := by
  split
  · rfl
  · rename_i number
    have fits := h.fits
    cases kind : h.kind with
    | file => exact absurd kind number
    | ttl | line | batch =>
      rw [kind] at fits
      exact queryType_digits fits

theorem queryType_hints {parts : List (Hint × GoString)} (gaps : ∀ p ∈ parts, p.2.all space = true)
    (apart : ∀ p ∈ parts.dropLast, p.2 ≠ []) : queryType (hintsText parts) = hintsType parts := by
  induction parts with
  | nil => rfl
  | cons p parts ih =>
    obtain ⟨blank, others⟩ := List.forall_mem_cons.mp gaps
    have rest : queryType (hintsText parts) = hintsType parts := by
      refine ih others fun p' mem => apart p' ?_
      cases parts with
      | nil => cases mem
      | cons q parts => exact List.mem_cons_of_mem p mem
    rw [hintsText, List.flatMap_cons, List.append_assoc, queryType_hint, ← hintsText, hintsType,
      ← queryType_value]
    -- a hint is followed by white space or is the last one
    cases gap : p.2 with
    | nil =>
      cases parts with
      | nil =>
        rw [hintsType, QueryType.or_unknown]
        simp [hintsText]
      | cons q parts => exact absurd gap (apart p (by simp))
    | cons x gap' =>
      rw [gap] at blank
      obtain ⟨first, more⟩ := Bool.and_eq_true_iff.mp blank
      rw [List.cons_append, queryType_space first, queryType_spaces more, rest]

theorem hintsType_eq_unknown {parts : List (Hint × GoString)}
    (free : ∀ p ∈ parts, p.1.kind ≠ .file) : hintsType parts = .unknown := by
  induction parts with
  | nil => rfl
  | cons p parts ih =>
    obtain ⟨first, rest⟩ := List.forall_mem_cons.mp free
    rw [hintsType, if_neg first, ih rest]
    rfl

theorem hintsType_eq (c : HintComment) : hintsType c.parts = queryType (c.value .file) := by
  have once := c.once
  rw [HintComment.value]
  generalize c.parts = parts at once ⊢
  induction parts with
  | nil => rfl
  | cons p parts ih =>
    rw [List.map_cons, List.nodup_cons] at once
    obtain ⟨fresh, rest⟩ := once
    by_cases file : p.1.kind = .file
    · have none : hintsType parts = .unknown := hintsType_eq_unknown fun p' mem same =>
        fresh (List.mem_map.mpr ⟨p', mem, by rw [same, file]⟩)
      rw [hintsType, if_pos file, none, QueryType.or_unknown,
        List.find?_cons_of_pos (by simp [file])]
    · rw [hintsType, if_neg file, QueryType.unknown_or, ih rest,
        List.find?_cons_of_neg (by simp [file])]

theorem queryType_comment (c : HintComment) (q : GoString) :
    queryType (c.text ++ q) = (queryType (c.value .file)).or (queryType q) := by
  have shape : c.text ++ q =
      47 :: 42 :: (c.lead ++ (hintsText c.parts ++ 42 :: 47 :: q)) := by
    simp [HintComment.text, List.append_assoc]
    rfl
  rw [shape, queryType_lead (by decide), queryType_lead (by decide), queryType_spaces c.blank,
    queryType_stop (by decide), queryType_lead (by decide), queryType_hints c.gaps c.apart,
    hintsType_eq]

theorem parse_type (q : GoString) : (parse q).type = queryType q := by
  have hinted : (applyHints { type := queryType q, db := fqnDatabase q, query := q } q).type =
      queryType q := by
    unfold applyHints
    split <;> rfl
  unfold parse
  dsimp only
  split
  · exact hinted
  · exact hinted

/-- A hint leaves the type alone exactly when its file name holds no keyword, or that of the
statement's own type. -/
theorem type_hinted_iff (c : HintComment) (q : GoString) :
    (parse (c.text ++ lit " " ++ q)).type = (parse q).type ↔
      queryType (c.value .file) = .unknown ∨ queryType (c.value .file) = queryType q := by
  have blank : queryType (lit " " ++ q) = queryType q := queryType_lead (by decide) q
  rw [parse_type, parse_type, List.append_assoc, queryType_comment, blank]
  exact QueryType.or_eq_right

theorem type_hinted_app : ∃ c : HintComment, c.text = lit "/* ttl:60 file:app.go line:42 */" ∧
    (parse (c.text ++ lit " " ++ lit "INSERT INTO t VALUES (1)")).type =
      (parse (lit "INSERT INTO t VALUES (1)")).type :=
  ⟨⟨lit " ", [(⟨.ttl, lit "60", by decide, by decide⟩, lit " "),
      (⟨.file, lit "app.go", by decide, by decide⟩, lit " "),
      (⟨.line, lit "42", by decide, by decide⟩, lit " ")],
    by decide, by decide, by decide, by decide⟩, by decide,
    (type_hinted_iff _ _).mpr (.inl (by decide))⟩

/-- A write with a hint from `select.php` is a cacheable SELECT. -/
theorem type_from_file_name : ∃ c : HintComment, c.text = lit "/* ttl:60 file:select.php */" ∧
    (parse (c.text ++ lit " " ++ lit "INSERT INTO t VALUES (1)")).isCacheable = true ∧
    (parse (c.text ++ lit " " ++ lit "INSERT INTO t VALUES (1)")).type = .select ∧
    (parse (lit "INSERT INTO t VALUES (1)")).type = .insert :=
  ⟨⟨lit " ", [(⟨.ttl, lit "60", by decide, by decide⟩, lit " "),
      (⟨.file, lit "select.php", by decide, by decide⟩, lit " ")],
    by decide, by decide, by decide, by decide⟩, by decide, by decide, by decide, by decide⟩

end TQDBProxy.Parser
