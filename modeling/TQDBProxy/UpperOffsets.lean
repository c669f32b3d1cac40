import TQDBProxy.GoStringLemmas
import TQDBProxy.PostgresReplies
import TQDBProxy.UpperCase
import TQDBProxy.WriteBatchExecutor

/-! Offsets that are found in the upper-case text and used in the text as it is, by five
functions. They fit when the runes before the keyword keep their encoded length in upper
case, taken together, and the keyword is written in ASCII. -/

namespace TQDBProxy

open Utf8

namespace Utf8

variable {rs : List Nat} {i : Nat}

theorem length_encode_ascii (ascii : ∀ r ∈ rs, r < 0x80) : (encode rs).length = rs.length := by
  induction rs with
  | nil => rfl
  | cons r rs ih =>
    rw [encode_cons, encodeRune_ascii (ascii r (by simp)), List.length_append,
      ih fun r' mem => ascii r' (by simp [mem]), List.length_cons]
    exact Nat.add_comm ..

theorem encode_split {c : UInt8} {rest : GoString} (scalars : ∀ r ∈ rs, Scalar r)
    (after : (encode rs).drop i = c :: rest) (start : runeStart c = true) :
    ∃ a b, rs = a ++ b ∧ (encode a).length = i := by
  obtain ⟨inside, front, back⟩ := valid_cut (valid_iff.mpr ⟨rs, scalars, rfl⟩) after start
  obtain ⟨a, scalarsA, eqA⟩ := valid_iff.mp front
  obtain ⟨b, scalarsB, eqB⟩ := valid_iff.mp back
  refine ⟨a, b, encode_injective scalars ?_ ?_, ?_⟩
  · intro r mem
    exact (List.mem_append.mp mem).elim (scalarsA r) (scalarsB r)
  · rw [encode_append, ← eqA, ← eqB, List.take_append_drop]
  · rw [← eqA, List.length_take]
    omega

theorem encode_ascii_front {word : GoString} (scalars : ∀ r ∈ rs, Scalar r)
    (ascii : ∀ b ∈ word, b.toNat < 0x80) (front : word <+: encode rs) :
    ∃ b, rs = word.map UInt8.toNat ++ b := by
  obtain ⟨rest, eq⟩ := front
  have scalarsW : ∀ r ∈ word.map UInt8.toNat, Scalar r := by
    rw [← runes_ascii word ascii]
    exact scalar_runes word
  have formed : valid rest = true := by
    have whole : valid (encode rs) = true := valid_iff.mpr ⟨rs, scalars, rfl⟩
    rwa [← eq, ← encode_ascii word ascii, valid_encode_append scalarsW] at whole
  obtain ⟨b, scalarsB, rfl⟩ := valid_iff.mp formed
  refine ⟨b, encode_injective scalars ?_ ?_⟩
  · intro r mem
    exact (List.mem_append.mp mem).elim (scalarsW r) (scalarsB r)
  · rw [encode_append, encode_ascii word ascii, eq]

end Utf8

structure Search where
  text : GoString
  keyword : GoString
  offset : Nat
  deriving DecidableEq

namespace Search

structure Found (s : Search) : Prop where
  wellFormed : valid s.text = true
  ascii : ∀ b ∈ s.keyword, b.toNat < 0x80
  nonempty : s.keyword ≠ []
  there : s.keyword <+: (Strings.toUpper s.text).drop s.offset

/-- The offset is in the text: what is before it is what stands before the keyword in
upper case, and the keyword follows. -/
structure SamePlace (s : Search) : Prop where
  inside : s.offset + s.keyword.length ≤ s.text.length
  before : Strings.toUpper (s.text.take s.offset) = (Strings.toUpper s.text).take s.offset
  here : Strings.toUpper ((s.text.drop s.offset).take s.keyword.length) = s.keyword

def splitUpper : List Nat → Nat → List Nat × List Nat
  | [], _ => ([], [])
  | r :: rs, i =>
    if i = 0 then ([], r :: rs)
    else
      let (before, after) := splitUpper rs (i - (encodeRune (Unicode.toUpper r)).length)
      (r :: before, after)

/-- The runes before the keyword keep their length, and the keyword is ASCII. -/
def aligned (s : Search) : Bool :=
  let (before, after) := splitUpper (runes s.text) s.offset
  (encode before).length == s.offset && (after.take s.keyword.length).all (· < 0x80)

theorem splitUpper_append (before after : List Nat)
    (scalars : ∀ r ∈ before, Scalar (Unicode.toUpper r)) :
    splitUpper (before ++ after) (encode (before.map Unicode.toUpper)).length =
      (before, after) := by
  induction before with
  | nil => cases after <;> simp [splitUpper]
  | cons r before ih =>
    obtain ⟨b, more, first, -, -⟩ := encodeRune_cons (scalars r (by simp))
    have step : (encode ((r :: before).map Unicode.toUpper)).length =
        (encodeRune (Unicode.toUpper r)).length + (encode (before.map Unicode.toUpper)).length := by
      simp
    have some : (encodeRune (Unicode.toUpper r)).length ≠ 0 := by simp [first]
    rw [List.cons_append, splitUpper, step, if_neg (by omega), Nat.add_sub_cancel_left,
      ih fun r' mem => scalars r' (by simp [mem])]

structure Parts (s : Search) (before word after : List Nat) : Prop where
  text : s.text = encode (before ++ (word ++ after))
  scalars : ∀ r ∈ before ++ (word ++ after), Scalar r
  offset : s.offset = (encode (before.map Unicode.toUpper)).length
  keyword : word.map Unicode.toUpper = s.keyword.map UInt8.toNat

theorem Found.parts {s : Search} (found : s.Found) :
    ∃ before word after, s.Parts before word after := by
  obtain ⟨rs, scalars, text⟩ := valid_iff.mp found.wellFormed
  have scalarsU := Strings.scalar_upper scalars
  obtain ⟨tail, eq⟩ := found.there
  rw [text, Strings.toUpper_encode scalars] at eq
  obtain ⟨c, more, word⟩ := List.exists_cons_of_ne_nil found.nonempty
  have start : runeStart c = true := runeStart_ascii (found.ascii c (by simp [word]))
  have follows : (encode (rs.map Unicode.toUpper)).drop s.offset = c :: (more ++ tail) := by
    rw [← eq, word]
    rfl
  obtain ⟨a, b, split, cut⟩ := encode_split scalarsU follows start
  have drop : (encode (rs.map Unicode.toUpper)).drop s.offset = encode b := by
    rw [split, encode_append, ← cut, List.drop_left]
  have front : s.keyword <+: encode b := ⟨tail, by rw [eq, drop]⟩
  have scalarsB : ∀ r ∈ b, Scalar r := fun r mem => scalarsU r (by rw [split]; simp [mem])
  obtain ⟨b', rfl⟩ := encode_ascii_front scalarsB found.ascii front
  obtain ⟨before, rest, rfl, rfl, split'⟩ := List.map_eq_append_iff.mp split
  obtain ⟨word, after, rfl, keyword, -⟩ := List.map_eq_append_iff.mp split'
  exact ⟨before, word, after, text, scalars, cut.symm, keyword⟩

section Parts

variable {s : Search} {before word after : List Nat}

theorem Parts.length (parts : s.Parts before word after) : word.length = s.keyword.length := by
  simpa using congrArg List.length parts.keyword

theorem Parts.upper_before (parts : s.Parts before word after) :
    (Strings.toUpper s.text).take s.offset = encode (before.map Unicode.toUpper) := by
  rw [parts.text, Strings.toUpper_encode parts.scalars, parts.offset, List.map_append,
    encode_append, List.take_left]

theorem Parts.aligned_iff (parts : s.Parts before word after) :
    s.aligned = true ↔ (encode before).length = s.offset ∧ ∀ r ∈ word, r < 0x80 := by
  have read : runes s.text = before ++ (word ++ after) := by
    rw [parts.text, runes_encode parts.scalars]
  have cut : splitUpper (runes s.text) s.offset = (before, word ++ after) := by
    rw [read, parts.offset]
    exact splitUpper_append before _ fun r mem =>
      Unicode.scalar_toUpper (parts.scalars r (by simp [mem]))
  rw [aligned, cut]
  simp [← parts.length]

theorem Parts.samePlace (found : s.Found) (parts : s.Parts before word after)
    (same : (encode before).length = s.offset) (ascii : ∀ r ∈ word, r < 0x80) : s.SamePlace := by
  have width : (encode word).length = s.keyword.length :=
    (length_encode_ascii ascii).trans parts.length
  have text : s.text = encode before ++ (encode word ++ encode after) := by
    rw [parts.text, encode_append, encode_append]
  have scalarsB : ∀ r ∈ before, Scalar r := fun r mem => parts.scalars r (by simp [mem])
  have scalarsW : ∀ r ∈ word, Scalar r := fun r mem => parts.scalars r (by simp [mem])
  refine ⟨?_, ?_, ?_⟩
  · rw [text, ← same, ← width]
    simp
  · rw [parts.upper_before, text, ← same, List.take_left, Strings.toUpper_encode scalarsB]
  · rw [text, ← same, List.drop_left, ← width, List.take_left, Strings.toUpper_encode scalarsW,
      parts.keyword, encode_ascii s.keyword found.ascii]

theorem Parts.aligned_of_samePlace (found : s.Found) (parts : s.Parts before word after)
    (place : s.SamePlace) : (encode before).length = s.offset ∧ ∀ r ∈ word, r < 0x80 := by
  have length : ((s.text.drop s.offset).take s.keyword.length).length = s.keyword.length := by
    have inside := place.inside
    rw [List.length_take, List.length_drop]
    omega
  have ascii := Strings.ascii_of_toUpper place.here found.ascii length
  -- the byte at the offset is ASCII, so the text is cut between runes there
  have positive : (s.text.drop s.offset).take s.keyword.length ≠ [] := by
    intro empty
    rw [empty] at length
    exact found.nonempty (List.length_eq_zero_iff.mp length.symm)
  obtain ⟨c, more, follows⟩ := List.exists_cons_of_ne_nil (List.ne_nil_of_take_ne_nil positive)
  have start : runeStart c = true := by
    refine runeStart_ascii (ascii c ?_)
    obtain ⟨k, size⟩ := Nat.exists_eq_succ_of_ne_zero
      (fun none => found.nonempty (List.length_eq_zero_iff.mp none))
    rw [follows, size]
    simp
  rw [parts.text] at follows
  obtain ⟨a, b, split, cut⟩ := encode_split parts.scalars follows start
  have scalarsA : ∀ r ∈ a, Scalar r := fun r mem => parts.scalars r (by rw [split]; simp [mem])
  have scalarsB : ∀ r ∈ before, Scalar r := fun r mem => parts.scalars r (by simp [mem])
  have upper : a.map Unicode.toUpper = before.map Unicode.toUpper := by
    refine encode_injective (Strings.scalar_upper scalarsA) (Strings.scalar_upper scalarsB) ?_
    rw [← parts.upper_before, ← place.before, parts.text, split, encode_append, ← cut,
      List.take_left, Strings.toUpper_encode scalarsA]
  have same : a.length = before.length := by simpa using congrArg List.length upper
  obtain ⟨rfl, rfl⟩ := List.append_inj split same.symm
  refine ⟨cut, ?_⟩
  -- as many ASCII bytes follow as the keyword has
  have front : (s.text.drop s.offset).take s.keyword.length <+: encode (word ++ after) := by
    rw [parts.text, encode_append, ← cut, List.drop_left]
    exact List.take_prefix ..
  have scalarsW : ∀ r ∈ word ++ after, Scalar r := fun r mem =>
    parts.scalars r (List.mem_append_right _ mem)
  obtain ⟨rest, runes⟩ := encode_ascii_front scalarsW ascii front
  obtain ⟨rfl, -⟩ := List.append_inj runes (by rw [List.length_map, length, parts.length])
  intro r mem
  obtain ⟨b, byte, rfl⟩ := List.mem_map.mp mem
  exact ascii b byte

end Parts

theorem samePlace_iff {s : Search} (found : s.Found) : s.SamePlace ↔ s.aligned = true := by
  obtain ⟨before, word, after, parts⟩ := found.parts
  rw [parts.aligned_iff]
  exact ⟨parts.aligned_of_samePlace found, fun ⟨same, ascii⟩ => parts.samePlace found same ascii⟩

end Search

/-! Pieces of a well-formed text -/

namespace Strings

theorem index_starts {s sub : GoString} {i : Nat} (found : index s sub = some i) :
    sub <+: s.drop i := by
  induction s generalizing i with
  | nil =>
    rw [index] at found
    split at found
    · rename_i empty
      cases found
      simp [List.isEmpty_iff.mp empty]
    · cases found
  | cons b rest ih =>
    rw [index] at found
    split at found
    · rename_i here
      cases found
      exact List.isPrefixOf_iff_prefix.mp here
    · obtain ⟨j, inner, rfl⟩ := Option.map_eq_some_iff.mp found
      exact ih inner

end Strings

theorem WriteBatch.valid_skipComments (fuel : Nat) {q : GoString} (wellFormed : valid q = true) :
    valid (skipComments fuel q) = true := by
  induction fuel generalizing q with
  | zero => exact Strings.valid_trimSpace wellFormed
  | succ fuel ih =>
    have trimmed := Strings.valid_trimSpace wellFormed
    rw [skipComments]
    split
    · split
      · exact trimmed
      · rename_i endIdx found
        apply ih
        obtain ⟨rest, eq⟩ := Strings.index_starts found
        have after : (Strings.trimSpace q).drop (endIdx + 2) = rest := by
          rw [← List.drop_drop, ← eq]
          rfl
        -- the comment ends with two ASCII bytes
        have ends : (Strings.trimSpace q).drop endIdx = 42 :: 47 :: rest := eq.symm
        obtain ⟨-, -, tail⟩ := valid_cut trimmed ends (by decide)
        rw [← eq, valid_append (by decide)] at tail
        rwa [after]
    · exact trimmed

/-! The five functions -/

inductive Site where
  | isBatchableDelete
  | executeTrueBatchedDelete
  | parseInsertStatement
  | executeTrueBatchedInsertMultiRow
  | handleDescribe
  deriving DecidableEq

def Search.find (text keyword : GoString) : Option Search :=
  (Strings.index (Strings.toUpper text) keyword).map (⟨text, keyword, ·⟩)

def Site.search (site : Site) (query : GoString) : Option Search :=
  match site with
  | .isBatchableDelete =>
    let q := WriteBatch.skipComments query.length query
    if Strings.hasPrefix (Strings.toUpper q) (lit "DELETE FROM ") then Search.find q (lit " WHERE ")
    else none
  | .executeTrueBatchedDelete => Search.find query (lit " WHERE ")
  | .parseInsertStatement =>
    let q := Strings.trimSpace query
    (Strings.index (Strings.toUpper q) (lit "INSERT")).bind fun insertPos =>
      (Strings.index ((Strings.toUpper q).drop insertPos) (lit "INTO")).map fun intoPos =>
        ⟨q, lit "INTO", insertPos + intoPos⟩
  | .executeTrueBatchedInsertMultiRow => Search.find query (lit "VALUES")
  | .handleDescribe => Search.find query (lit " RETURNING ")

def isWord (keyword : GoString) : Bool := Strings.isAscii keyword && !keyword.isEmpty

theorem Search.found_of_starts {s : Search} (word : isWord s.keyword = true)
    (wellFormed : valid s.text = true)
    (there : s.keyword <+: (Strings.toUpper s.text).drop s.offset) : s.Found := by
  simp only [isWord, Bool.and_eq_true, Bool.not_eq_true', List.isEmpty_eq_false_iff] at word
  exact ⟨wellFormed, Strings.isAscii_iff.mp word.1, word.2, there⟩

theorem Search.found_of_find {text : GoString} (keyword : GoString) {s : Search}
    (word : isWord keyword = true) (wellFormed : valid text = true)
    (search : Search.find text keyword = some s) : s.Found := by
  obtain ⟨i, index, rfl⟩ := Option.map_eq_some_iff.mp search
  exact found_of_starts word wellFormed (Strings.index_starts index)

theorem Site.found {site : Site} {query : GoString} {s : Search} (wellFormed : valid query = true)
    (search : site.search query = some s) : s.Found := by
  cases site with
  | isBatchableDelete =>
    simp only [Site.search] at search
    split at search
    · exact Search.found_of_find (lit " WHERE ") (by decide)
        (WriteBatch.valid_skipComments _ wellFormed) search
    · cases search
  | executeTrueBatchedDelete =>
    exact Search.found_of_find (lit " WHERE ") (by decide) wellFormed search
  | parseInsertStatement =>
    obtain ⟨insertPos, -, inner⟩ := Option.bind_eq_some_iff.mp search
    obtain ⟨intoPos, index, rfl⟩ := Option.map_eq_some_iff.mp inner
    have starts := Strings.index_starts index
    rw [List.drop_drop] at starts
    exact Search.found_of_starts (show isWord (lit "INTO") = true by decide)
      (Strings.valid_trimSpace wellFormed) starts
  | executeTrueBatchedInsertMultiRow =>
    exact Search.found_of_find (lit "VALUES") (by decide) wellFormed search
  | handleDescribe =>
    exact Search.found_of_find (lit " RETURNING ") (by decide) wellFormed search

/-- The place after the keyword is past the end of the text, where a slice panics. -/
def Search.beyond (s : Search) : Bool := s.text.length < s.offset + s.keyword.length

theorem Search.SamePlace.within {s : Search} (place : s.SamePlace) : s.beyond = false := by
  have inside := place.inside
  simpa [Search.beyond] using inside

theorem Search.sliceFrom_none (text keyword : GoString) (i : Nat) {n : Nat}
    (length : keyword.length = n) :
    Strings.sliceFrom text (i + n) = none ↔ (Search.mk text keyword i).beyond = true := by
  simp [Strings.sliceFrom, Search.beyond, length]

theorem isBatchableDelete_panics_iff (query : GoString) :
    WriteBatch.isBatchableDelete query = none ↔
      (Site.isBatchableDelete.search query).any Search.beyond = true := by
  simp only [WriteBatch.isBatchableDelete, Site.search, Search.find]
  generalize WriteBatch.skipComments query.length query = q
  cases Strings.hasPrefix (Strings.toUpper q) (lit "DELETE FROM ") with
  | false => simp
  | true =>
    cases Strings.index (Strings.toUpper q) (lit " WHERE ") with
    | none => simp
    | some i => simp [Search.sliceFrom_none q (lit " WHERE ") i (n := 7) (by decide)]

theorem parseColumns_returns (remaining : GoString) (tableEnd : Nat) :
    WriteBatch.parseColumns remaining tableEnd ≠ .panics := by
  unfold WriteBatch.parseColumns
  dsimp only
  split
  · simp
  · split
    · simp
    · split <;> simp

theorem parseInsertStatement_panics_iff (query : GoString) :
    WriteBatch.parseInsertStatement query = .panics ↔
      (Site.parseInsertStatement.search query).any Search.beyond = true := by
  simp only [WriteBatch.parseInsertStatement, Site.search]
  generalize Strings.trimSpace query = q
  cases Strings.index (Strings.toUpper q) (lit "INSERT") with
  | none => simp
  | some insertPos =>
    simp only [Option.bind_some]
    cases Strings.index ((Strings.toUpper q).drop insertPos) (lit "INTO") with
    | none => simp
    | some intoPos =>
      have slice := Search.sliceFrom_none q (lit "INTO") (intoPos + insertPos) (n := 4) (by decide)
      simp only [Option.map_some, Option.any_some, Nat.add_comm insertPos intoPos, ← slice]
      cases Strings.sliceFrom q (intoPos + insertPos + 4) with
      | none => simp
      | some rest =>
        dsimp only
        cases (Strings.trimSpace rest).findIdx? fun ch => ch == 40 || ch == 32 with
        | none => simp
        | some tableEnd => simp [parseColumns_returns]

theorem multiRow_panics_iff (query : GoString) (params : List (List Value)) :
    WriteBatch.multiRow query params = .panics ↔
      (Site.executeTrueBatchedInsertMultiRow.search query).any Search.beyond = true := by
  simp only [WriteBatch.multiRow, WriteBatch.valuesIdx, Site.search, Search.find]
  cases Strings.index (Strings.toUpper query) (lit "VALUES") with
  | none => simp
  | some i =>
    have length : (lit "VALUES").length = 6 := by decide
    by_cases inside : i + 6 ≤ query.length
    · simp only [Option.map_some, Strings.sliceTo, inside, if_true]
      split <;> simp [Search.beyond, length, inside]
    · simp [Strings.sliceTo, inside, Search.beyond, length]
      omega

theorem describeStatement_panics_iff (query : GoString) :
    (Postgres.describeStatement query).panics = true ↔
      Postgres.oversized (Postgres.countPostgresParams query) = true ∨
      (Site.handleDescribe.search query).any Search.beyond = true := by
  simp only [Postgres.describeStatement, Postgres.returningColumn, Site.search, Search.find]
  cases Postgres.oversized (Postgres.countPostgresParams query) with
  | true => simp
  | false =>
    cases Strings.index (Strings.toUpper query) (lit " RETURNING ") with
    | none => simp
    | some i =>
      have slice := Search.sliceFrom_none query (lit " RETURNING ") i (n := 11) (by decide)
      cases clause : Strings.sliceFrom query (i + 11) <;> simp [← slice, clause]

/-- No slice is past the end of a text whose searches are aligned. -/
theorem no_slice_panics {query : GoString} (wellFormed : valid query = true)
    (aligned : ∀ site : Site, (site.search query).all Search.aligned = true)
    (params : List (List Value)) :
    WriteBatch.isBatchableDelete query ≠ none ∧ WriteBatch.parseInsertStatement query ≠ .panics ∧
      WriteBatch.multiRow query params ≠ .panics ∧
      ((Postgres.describeStatement query).panics = true →
        Postgres.oversized (Postgres.countPostgresParams query) = true) := by
  have within : ∀ site : Site, (site.search query).any Search.beyond = false := by
    intro site
    cases search : site.search query with
    | none => rfl
    | some s =>
      have fits : s.aligned = true := by simpa [search] using aligned site
      exact ((Search.samePlace_iff (Site.found wellFormed search)).mpr fits).within
  rw [Ne, isBatchableDelete_panics_iff, Ne, parseInsertStatement_panics_iff, Ne,
    multiRow_panics_iff, describeStatement_panics_iff]
  simp [within]

theorem no_slice_panics_accent :
    WriteBatch.isBatchableDelete (lit "DELETE FROM café WHERE id = ?") ≠ none :=
  (no_slice_panics (by decide +kernel) (fun site => by cases site <;> decide +kernel) []).1

/-- Each offset is that of its keyword in the text exactly when it is aligned. -/
theorem offsets_in_original_iff (site : Site) (query : GoString) (s : Search)
    (wellFormed : valid query = true) (search : site.search query = some s) :
    s.SamePlace ↔ s.aligned = true :=
  Search.samePlace_iff (Site.found wellFormed search)

/-- The é keeps its length in upper case. -/
theorem offsets_in_original_accent :
    Search.SamePlace ⟨lit "DELETE FROM café WHERE id = ?", lit " WHERE ", 17⟩ :=
  (offsets_in_original_iff .isBatchableDelete (lit "DELETE FROM café WHERE id = ?")
    ⟨lit "DELETE FROM café WHERE id = ?", lit " WHERE ", 17⟩ (by decide +kernel)
    (by decide +kernel)).mpr (by decide +kernel)

/-- The turned a is a byte longer in upper case, and the slice after RETURNING is past the
end; the dotless i is a byte shorter, and the slice before WHERE ends inside it. -/
theorem offsets_shifted :
    valid (lit "DELETE FROM ɐ RETURNING ") = true ∧
    Site.handleDescribe.search (lit "DELETE FROM ɐ RETURNING ") =
      some ⟨lit "DELETE FROM ɐ RETURNING ", lit " RETURNING ", 15⟩ ∧
    Search.beyond ⟨lit "DELETE FROM ɐ RETURNING ", lit " RETURNING ", 15⟩ = true ∧
    (Postgres.describeStatement (lit "DELETE FROM ɐ RETURNING ")).panics = true ∧
    valid (lit "DELETE FROM ı WHERE id = ?") = true ∧
    Site.executeTrueBatchedDelete.search (lit "DELETE FROM ı WHERE id = ?") =
      some ⟨lit "DELETE FROM ı WHERE id = ?", lit " WHERE ", 13⟩ ∧
    Strings.toUpper (((lit "DELETE FROM ı WHERE id = ?").drop 13).take 7) ≠ lit " WHERE " ∧
    valid ((lit "DELETE FROM ı WHERE id = ?").take 13) = false := by
  decide +kernel

end TQDBProxy
