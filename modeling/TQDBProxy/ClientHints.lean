import TQDBProxy.HintRecovery

/-! The hints that the client libraries write and the proxy reads. The libraries put the base
name of the caller's file as it is into a comment before the statement; the proxy looks
for hints and for the statement's keyword in the whole text. -/

namespace TQDBProxy.Client

open Regex TQDBProxy.Parser

structure BaseName where
  text : GoString
  some : text ≠ []
  base : (47 : UInt8) ∉ text

def queryWithTTL (ttl : Nat) (file : GoString) (line : Nat) (query : GoString) : GoString :=
  let hint :=
    lit "/* ttl:" ++ Strconv.itoa ttl ++ lit " file:" ++ file ++ lit " line:" ++
      Strconv.itoa line ++ lit " */"
  hint ++ lit " " ++ query

structure Decoded (ttl : Nat) (file : GoString) (line : Nat) (query : GoString) (p : ParsedQuery) :
    Prop where
  ttl : queryType query = .select → p.ttl = ttl
  file : p.file = file
  line : p.line = line
  query : p.query = Strings.trimSpace query

theorem parse_file_word (s : GoString) : ∀ b ∈ (parse s).file, space b = false := by
  cases found : hintRegex.find none s with
  | none =>
    have file : (parse s).file = [] := by
      unfold parse applyHints
      rw [found]
      dsimp only
      split <;> rfl
    rw [file]
    simp
  | some m =>
    obtain ⟨file, -⟩ := parse_hinted found
    rw [file]
    rcases hintRegex.submatch_of_find found 4 with none | ⟨a, body, takes⟩
    · rw [none]
      simp
    · obtain rfl : a = .plus (.one fun b => !space b) := List.mem_singleton.mp body
      intro b mem
      simpa using ((takes_plus_one _ _).mp takes).2 b mem

theorem itoa_digit (n : Nat) : (Strconv.itoa n).all digit = true := by
  rw [List.all_eq_true]
  intro b mem
  have range := Strconv.itoa_digits n b mem
  simp [digit, UInt8.le_iff_toNat_le, range]

def parts (ttl : Nat) (file : BaseName) (line : Nat) (word : ∀ b ∈ file.text, space b = false) :
    List (Hint × GoString) :=
  [(⟨.ttl, Strconv.itoa ttl, Strconv.itoa_ne_nil ttl, itoa_digit ttl⟩, lit " "),
    (⟨.file, file.text, file.some, by simpa [HintKind.takes] using word⟩, lit " "),
    (⟨.line, Strconv.itoa line, Strconv.itoa_ne_nil line, itoa_digit line⟩, lit " ")]

variable {ttl line : Nat} {file : BaseName}

theorem parts_blank (word : ∀ b ∈ file.text, space b = false) :
    ∀ p ∈ parts ttl file line word, p.2 = lit " " := by
  simp [parts]

def comment (ttl : Nat) (file : BaseName) (line : Nat) (word : ∀ b ∈ file.text, space b = false) :
    HintComment where
  lead := lit " "
  parts := parts ttl file line word
  blank := by decide
  gaps p mem := by
    rw [parts_blank word p mem]
    decide
  apart p mem := by
    rw [parts_blank word p (List.mem_of_mem_dropLast mem)]
    decide
  once := by simp [parts]

theorem queryWithTTL_eq (word : ∀ b ∈ file.text, space b = false) (query : GoString) :
    queryWithTTL ttl file.text line query = (comment ttl file line word).text ++
      (lit " " ++ query) := by
  have first : lit "/* ttl:" = lit "/*" ++ (lit " " ++ lit "ttl:") := by decide
  have second : lit " file:" = lit " " ++ lit "file:" := by decide
  have third : lit " line:" = lit " " ++ lit "line:" := by decide
  have last : lit " */" = lit " " ++ lit "*/" := by decide
  simp only [queryWithTTL, HintComment.text, comment, parts, hintsText, List.flatMap_cons,
    List.flatMap_nil, Hint.text,
    HintKind.key, first, second, third, last, List.append_assoc, List.nil_append]

theorem trimSpace_blank (s : GoString) :
    Strings.trimSpace (lit " " ++ s) = Strings.trimSpace s := by
  have left : Strings.trimLeft (lit " " ++ s) = Strings.trimLeft s := rfl
  rw [Strings.trimSpace, left, Strings.trimSpace]

theorem find_blank (s : GoString) : hintRegex.find none (lit " " ++ s) = none ↔
    hintRegex.find none s = none := by
  have start : hintRegex.find none (lit " " ++ s) = hintRegex.find (some 32) s := by
    rw [show lit " " ++ s = 32 :: s from rfl, Re.find, matchFrom_other (by simp)]
  rw [start, find_before_none]

theorem parse_decoded (ttl line : Nat) (word : ∀ b ∈ file.text, space b = false)
    (query : GoString) :
    let p := parse (queryWithTTL ttl file.text line query)
    p.file = file.text ∧ p.line = atoi (Strconv.itoa line) ∧
      p.ttl =
        (if ((queryType file.text).or (queryType query)).writes then 0 else
          atoi (Strconv.itoa ttl)) ∧
      (p.query = Strings.trimSpace query ↔ hintRegex.find none query = none) := by
  have whole : Sealed ((comment ttl file line word).value .file) := by
    intro inside
    exact file.base (inside.subset (by decide))
  have closed : ¬ OpenFile (comment ttl file line word).parts := by
    rintro ⟨p, last, file, -⟩
    obtain rfl := Option.some.inj last
    cases file
  have ordered : ((comment ttl file line word).parts.map (·.1.kind)).Sublist parserOrder := by
    change [HintKind.ttl, .file, .line].Sublist parserOrder
    decide
  have read := parse_ordered (comment ttl file line word) (lit " " ++ query) whole ordered
    (fun opened => absurd opened closed)
  have blank : queryType (lit " " ++ query) = queryType query := queryType_lead (by decide) query
  rw [← queryWithTTL_eq, trimSpace_blank, find_blank, blank] at read
  exact ⟨read.1, read.2.1, read.2.2.2.1, read.2.2.2.2⟩

theorem atoi_itoa_iff (n : Nat) : atoi (Strconv.itoa n) = n ↔ n < 1 <<< 63 := by
  rw [atoi, Strconv.digitsValue_itoa]
  omega

/-- The hints are decoded exactly when the file name has no white space, the statement has
nothing that reads as a hint, the numbers fit, and a SELECT does not come from a file that is
named after a write. -/
theorem client_hints_decoded_iff (ttl line : Nat) (file : BaseName) (query : GoString) :
    Decoded ttl file.text line query (parse (queryWithTTL ttl file.text line query)) ↔
      (∀ b ∈ file.text, space b = false) ∧ hintRegex.find none query = none ∧ line < 1 <<< 63 ∧
      (queryType query = .select →
        ttl < 1 <<< 63 ∧ (ttl = 0 ∨ (queryType file.text).writes = false)) := by
  by_cases word : ∀ b ∈ file.text, space b = false
  swap
  · refine iff_of_false (fun decoded => word ?_) fun holds => word holds.1
    rw [← decoded.file]
    exact parse_file_word _
  obtain ⟨named, numbered, timed, statement⟩ := parse_decoded ttl line word query
  have timing :
    (queryType query = .select → (parse (queryWithTTL ttl file.text line query)).ttl = ttl) ↔
      (queryType query = .select → ttl < 1 <<< 63 ∧
        (ttl = 0 ∨ (queryType file.text).writes = false)) := by
    refine imp_congr_right fun select => ?_
    have writes : ((queryType file.text).or .select).writes = (queryType file.text).writes := by
      cases queryType file.text <;> rfl
    rw [timed, select, writes]
    cases (queryType file.text).writes with
    | false => simp [atoi_itoa_iff]
    | true =>
      simp only [if_true, Bool.true_eq_false, or_false]
      omega
  have counting : (parse (queryWithTTL ttl file.text line query)).line = line ↔
      line < 1 <<< 63 := by
    rw [numbered, atoi_itoa_iff]
  constructor
  · intro decoded
    exact ⟨word, statement.mp decoded.query, counting.mp decoded.line, timing.mp decoded.ttl⟩
  · rintro ⟨-, free, small, fits⟩
    exact ⟨timing.mpr fits, named, counting.mpr small, statement.mpr free⟩

def blankName : BaseName := ⟨lit "my app.php", by decide, by decide⟩

/-- A file name with a blank: nothing is decoded, and the comment is part of the query. -/
theorem client_hints_lost :
    parse (queryWithTTL 60 blankName.text 7 (lit "SELECT 1")) =
        { type := .select, query := lit "/* ttl:60 file:my app.php line:7 */ SELECT 1" } ∧
      ¬ Decoded 60 blankName.text 7 (lit "SELECT 1")
        (parse (queryWithTTL 60 blankName.text 7 (lit "SELECT 1"))) := by
  have read : parse (queryWithTTL 60 blankName.text 7 (lit "SELECT 1")) =
      { type := .select, query := lit "/* ttl:60 file:my app.php line:7 */ SELECT 1" } := by decide
  refine ⟨read, fun decoded => ?_⟩
  have file := decoded.file
  rw [read] at file
  exact absurd file (by decide)

end TQDBProxy.Client
