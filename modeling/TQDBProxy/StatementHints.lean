import TQDBProxy.HintRecovery
import TQDBProxy.StatementSplitting

/-! The hints of a command that is one statement. They are kept for the statement that is the
stripped text byte for byte. Any other statement is parsed again and has the hints that are
left in the stripped text: white space and semicolons around it change neither the first
hint comment nor the type. -/

namespace TQDBProxy.Parser

open Regex

variable {u s v : GoString}

theorem hint_append (absent : 47 ∉ v) (c : Cursor UInt8) :
    hintRegex.matchFrom (c.extend v) some = (hintRegex.matchFrom c some).map (Cursor.extend v) := by
  refine (hintRegex.matchFrom_ends plain_hintRegex (List.all_eq_true.mpr fun x mem => ?_)).1 c
  have other : x ≠ 47 := fun eq => absent (eq ▸ mem)
  simp [other]

theorem find_lead (absent : 47 ∉ u) (before : Option UInt8) (t : GoString) :
    ∃ b, hintRegex.find before (u ++ t) = hintRegex.find b t := by
  induction u generalizing before with
  | nil => exact ⟨before, rfl⟩
  | cons x u ih =>
    obtain ⟨other, rest⟩ := not_or.mp (List.mem_cons.not.mp absent)
    rw [List.cons_append, Re.find, matchFrom_other (by simpa using Ne.symm other)]
    exact ih rest (some x)

theorem find_append (absent : 47 ∉ v) (before : Option UInt8) (s : GoString) :
    hintRegex.find before (s ++ v) = (hintRegex.find before s).map (Cursor.extend v) := by
  induction s generalizing before with
  | nil =>
    obtain ⟨b, eq⟩ := find_lead absent before []
    rw [List.append_nil] at eq
    rw [List.nil_append, eq, Re.find, Re.find, matchFrom_other (by simp), matchFrom_other (by simp)]
    rfl
  | cons x s ih =>
    have here := hint_append absent ⟨before, x :: s, []⟩
    rw [Cursor.extend, List.cons_append] at here
    rw [List.cons_append, Re.find, Re.find, here]
    cases hintRegex.matchFrom ⟨before, x :: s, []⟩ some with
    | some m => rfl
    | none => exact ih (some x)

theorem groups_find (front : 47 ∉ u) (back : 47 ∉ v) (s : GoString) :
    (hintRegex.find none (u ++ (s ++ v))).map Cursor.groups =
      (hintRegex.find none s).map Cursor.groups := by
  obtain ⟨b, eq⟩ := find_lead front none (s ++ v)
  have same := hintRegex.find_before (hintRegex.blind_of_plain plain_hintRegex b none) s
  have groups (x : Option (Cursor UInt8)) :
      x.map Cursor.groups = (x.map Cursor.view).map Prod.snd := by
    cases x <;> rfl
  rw [eq, find_append back, Option.map_map, groups (hintRegex.find none s), ← same, ← groups]
  rfl

/-! The type -/

theorem queryType_front (stops : ∀ b ∈ u, queryTypeRegex.stops b = true) (s : GoString) :
    queryType (u ++ s) = queryType s := by
  induction u with
  | nil => rfl
  | cons x u ih =>
    rw [List.forall_mem_cons] at stops
    rw [List.cons_append, queryType_lead stops.1, ih stops.2]

theorem queryType_back (stops : ∀ b ∈ v, queryTypeRegex.stops b = true) (s : GoString) :
    queryType (s ++ v) = queryType s := by
  cases v with
  | nil => rw [List.append_nil]
  | cons x v =>
    rw [List.forall_mem_cons] at stops
    have unknown : queryType v = .unknown := by
      rw [← List.append_nil v, queryType_front stops.2]
      decide
    rw [queryType_stop stops.1, unknown, QueryType.or_unknown]

end TQDBProxy.Parser

namespace TQDBProxy.MariaDB

open ListSegments Utf8 Strings

structure Hints where
  ttl : Nat := 0
  batchMs : Nat := 0
  file : GoString := []
  line : Nat := 0
  deriving DecidableEq

def hints (p : Parser.ParsedQuery) : Hints := ⟨p.ttl, p.batchMs, p.file, p.line⟩

/-- The hints in the groups of a match. -/
def hintsOf (writes : Bool) (groups : List (Nat × GoString)) : Hints :=
  let m : Regex.Cursor UInt8 := ⟨none, [], groups⟩
  ⟨if writes then 0 else Parser.atoi (m.submatch 2), Parser.atoi (m.submatch 8), m.submatch 4,
    Parser.atoi (m.submatch 6)⟩

theorem hints_parse (s : GoString) :
    hints (Parser.parse s) = (((Parser.hintRegex.find none s).map Regex.Cursor.groups).map
      (hintsOf (Parser.queryType s).writes)).getD {} := by
  cases found : Parser.hintRegex.find none s with
  | none =>
    unfold Parser.parse Parser.applyHints
    rw [found]
    dsimp only
    split <;> rfl
  | some m =>
    obtain ⟨file, line, batch, ttl, -⟩ := Parser.parse_hinted found
    rw [hints, file, line, batch, ttl]
    rfl

/-- What may stand around a statement: no part of a hint comment, of a keyword or of a word. -/
def aside (b : UInt8) : Bool := Parser.queryTypeRegex.stops b && b != 47

theorem hints_aside {u v : GoString} (front : ∀ b ∈ u, aside b = true)
    (back : ∀ b ∈ v, aside b = true) (s : GoString) :
    hints (Parser.parse (u ++ (s ++ v))) = hints (Parser.parse s) := by
  have stops {t : GoString} (all : ∀ b ∈ t, aside b = true) (b : UInt8) (mem : b ∈ t) :
      Parser.queryTypeRegex.stops b = true := (Bool.and_eq_true_iff.mp (all b mem)).1
  have slash {t : GoString} (all : ∀ b ∈ t, aside b = true) : 47 ∉ t := fun mem =>
    absurd (all 47 mem) (by decide)
  rw [hints_parse, hints_parse, Parser.groups_find (slash front) (slash back),
    Parser.queryType_front (stops front), Parser.queryType_back (stops back)]

theorem trimSpace_aside (s : GoString) :
    ∃ u w, s = u ++ trimSpace s ++ w ∧ (∀ b ∈ u, aside b = true) ∧ ∀ b ∈ w, aside b = true := by
  have all : Unicode.spaces.all (·.all aside) = true := by decide +kernel
  have each {p : GoString} (space : p ∈ Unicode.spaces) (b : UInt8) (mem : b ∈ p) :
      aside b = true := List.all_eq_true.mp (List.all_eq_true.mp all p space) b mem
  obtain ⟨u, left, parts, spaces, rfl⟩ := dropPieces_split Unicode.spaces s.length s
  obtain ⟨w, right, parts', spaces', flat⟩ := trimRight_split (trimLeft s)
  refine ⟨parts.flatten, w, ?_, fun b mem => ?_, fun b mem => ?_⟩
  · rw [List.append_assoc, trimSpace, ← right]
    exact left
  · obtain ⟨p, part, mem⟩ := List.mem_flatten.mp mem
    exact each (spaces p part) b mem
  · obtain ⟨p, part, mem⟩ := List.mem_flatten.mp (flat ▸ List.mem_reverse.mpr mem)
    obtain ⟨q, space, rfl⟩ := List.mem_map.mp (spaces' p part)
    exact each space b (List.mem_reverse.mp mem)

theorem blank_aside {parts : List GoString} (none : trimmedPieces parts = []) :
    ∀ b ∈ joinWith [59] parts, aside b = true := by
  intro b mem
  rcases ListCopies.mem_joinWith mem with sep | ⟨part, inside, mem⟩
  · rw [List.mem_singleton.mp sep]
    decide
  · obtain ⟨u, w, eq, front, back⟩ := trimSpace_aside part
    have blank : trimSpace part = [] := by
      by_contra some
      have listed : trimSpace part ∈ trimmedPieces parts :=
        mem_trimmedPieces.mpr ⟨some, part, inside, rfl⟩
      rw [none] at listed
      cases listed
    rw [eq, blank, List.append_nil] at mem
    exact (List.mem_append.mp mem).elim (front b) (back b)

/-- One statement has nothing around it but white space and semicolons. -/
theorem statement_aside {parts : List GoString} {stmt : GoString}
    (one : trimmedPieces parts = [stmt]) :
    ∃ u v, joinWith [59] parts = u ++ (stmt ++ v) ∧ (∀ b ∈ u, aside b = true) ∧
      ∀ b ∈ v, aside b = true := by
  have semicolon : aside 59 = true := by decide
  induction parts with
  | nil => cases one
  | cons part parts ih =>
    rw [trimmedPieces_cons] at one
    obtain ⟨u, w, eq, front, back⟩ := trimSpace_aside part
    split at one
    · -- the statement comes later
      rename_i blank
      obtain ⟨u', v, text, front', back'⟩ := ih one
      have more : parts ≠ [] := by
        rintro rfl
        cases one
      refine ⟨part ++ 59 :: u', v, ?_, ?_, back'⟩
      · rw [ListCopies.joinWith_cons more, text]
        simp
      · rw [eq, blank, List.append_nil]
        simpa [or_imp, forall_and, semicolon] using ⟨front, back, front'⟩
    · obtain ⟨same, rest⟩ := List.cons.inj one
      have later := blank_aside rest
      rw [← same]
      cases parts with
      | nil => exact ⟨u, w, by simpa [joinWith] using eq, front, back⟩
      | cons p parts =>
        refine ⟨u, w ++ 59 :: joinWith [59] (p :: parts), ?_, front, ?_⟩
        · rw [ListCopies.joinWith_cons (List.cons_ne_nil _ _)]
          nth_rewrite 1 [eq]
          simp
        · simpa [or_imp, forall_and, semicolon] using ⟨back, later⟩

theorem length_trimSpace_le (s : GoString) : (trimSpace s).length ≤ s.length := by
  obtain ⟨u, w, eq, -, -⟩ := trimSpace_split s
  have lengths := congrArg List.length eq
  simp only [List.length_append] at lengths
  omega

/-- The splitter leaves the text as it is: no cut, no byte replaced, nothing to trim. -/
def Untouched (query : GoString) : Prop :=
  cutOffsets query = [] ∧ valid query = true ∧ trimSpace query = query

instance (query : GoString) : Decidable (Untouched query) := inferInstanceAs (Decidable (_ ∧ _ ∧ _))

theorem untouched_iff {query stmt : GoString} (one : splitQueries query = [stmt]) :
    stmt = query ↔ Untouched query := by
  constructor
  · rintro rfl
    have wellFormed : valid stmt = true := valid_splitQueries stmt stmt (by rw [one]; simp)
    have mem : stmt ∈ trimmedPieces (segments stmt (cutOffsets stmt)) := by
      rw [← splitQueries_segments wellFormed, one]
      simp
    obtain ⟨-, part, inside, trimmed⟩ := mem_trimmedPieces.mp mem
    have long : stmt.length ≤ part.length := by
      rw [← trimmed]
      exact length_trimSpace_le part
    obtain ⟨none, rfl⟩ := uncut_of_long_segment (cutOffsets_cutsAt wellFormed) inside long
    exact ⟨none, wellFormed, trimmed⟩
  · rintro ⟨none, wellFormed, trimmed⟩
    rw [splitQueries_segments wellFormed, none] at one
    have mem : stmt ∈ trimmedPieces (segments query []) := by
      rw [one]
      simp
    obtain ⟨-, part, inside, rfl⟩ := mem_trimmedPieces.mp mem
    rw [List.mem_singleton.mp inside]
    exact trimmed

/-- The text with its ill-formed bytes replaced, as the splitter writes it. -/
def wellFormed (query : GoString) : GoString := encode (runes query)

theorem hints_statement {query stmt : GoString} (one : splitQueries query = [stmt]) :
    hints (Parser.parse stmt) = hints (Parser.parse (wellFormed query)) := by
  have cut : CutsAt 59 (wellFormed query) (cutOffsets query) :=
    offsets_cutsFrom Quoting.cuts_semicolon {} 0 (runes query)
  rw [splitQueries_eq] at one
  obtain ⟨u, v, text, front, back⟩ := statement_aside one
  rw [← wellFormed, segments, joinWith_segmentsFrom cut] at text
  rw [text, hints_aside front back]

/-- The hints reach the statement exactly when the splitter leaves the stripped text as it is,
or the stripped text still has the hints of the whole text. -/
theorem hints_reach_iff (text stmt : GoString)
    (one : splitQueries (Parser.parse text).query = [stmt]) :
    hints (statementParsed stmt (Parser.parse text)) = hints (Parser.parse text) ↔
      Untouched (Parser.parse text).query ∨
        hints (Parser.parse (wellFormed (Parser.parse text).query)) =
          hints (Parser.parse text) := by
  rw [statementParsed, ← untouched_iff one, ← hints_statement one]
  split_ifs with same <;> simp [same]

theorem hints_reach_trimmed :
    hints (statementParsed (lit "SELECT ';'")
      (Parser.parse (lit "/* ttl:60 file:a.go line:7 */ SELECT ';' "))) =
        hints (Parser.parse (lit "/* ttl:60 file:a.go line:7 */ SELECT ';' ")) :=
  (hints_reach_iff _ _ (by decide +kernel)).mpr (.inl (by decide +kernel))

/-- With a semicolon at its end the statement loses the hints of its text. -/
theorem hints_lost_at_semicolon :
    splitQueries (Parser.parse (lit "/* ttl:60 file:a.go line:7 */ SELECT 1;")).query =
        [lit "SELECT 1"] ∧
      hints (Parser.parse (lit "/* ttl:60 file:a.go line:7 */ SELECT 1;")) =
        ⟨60, 0, lit "a.go", 7⟩ ∧
      hints (statementParsed (lit "SELECT 1")
        (Parser.parse (lit "/* ttl:60 file:a.go line:7 */ SELECT 1;"))) = ⟨0, 0, [], 0⟩ := by
  decide +kernel

end TQDBProxy.MariaDB
