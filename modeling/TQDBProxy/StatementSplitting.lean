import TQDBProxy.ListSegments
import TQDBProxy.MariaDBSession
import TQDBProxy.UpperCase

/-! `splitQueries` as a machine that cuts the text at some of its semicolons. It reads runes
and writes them again, so the statements are pieces of the text exactly when the text is
well-formed UTF-8. -/

namespace TQDBProxy.MariaDB

open ListSegments Utf8 Strings

structure Quoting where
  inQuote : Bool := false
  quoteChar : Nat := 0
  escaped : Bool := false
  deriving DecidableEq

namespace Quoting

def next (q : Quoting) (r : Nat) : Quoting :=
  if q.escaped then { q with escaped := false }
  else if r = 92 then { q with escaped := true }
  else if r = 39 ∨ r = 34 ∨ r = 96 then
    if !q.inQuote then { q with inQuote := true, quoteChar := r }
    else if r = q.quoteChar then { q with inQuote := false } else q
  else q

def cuts (q : Quoting) (r : Nat) : Bool := r == 59 && !q.escaped && !q.inQuote

theorem cuts_semicolon (q : Quoting) (r : Nat) (cut : q.cuts r = true) : encodeRune r = [59] := by
  have semicolon : r = 59 := by
    simp only [cuts, Bool.and_eq_true, beq_iff_eq] at cut
    exact cut.1.1
  rw [semicolon]
  rfl

end Quoting

def Splitter.quoting (p : Splitter) : Quoting := ⟨p.inQuote, p.quoteChar, p.escaped⟩

def trimmedPieces (parts : List GoString) : List GoString :=
  (parts.map trimSpace).filter (!·.isEmpty)

theorem trimmedPieces_cons (part : GoString) (parts : List GoString) :
    trimmedPieces (part :: parts) =
      (if trimSpace part = [] then [] else [trimSpace part]) ++ trimmedPieces parts := by
  cases trimmed : trimSpace part <;> simp [trimmedPieces, trimmed]

theorem mem_trimmedPieces {parts : List GoString} {stmt : GoString} :
    stmt ∈ trimmedPieces parts ↔ stmt ≠ [] ∧ ∃ part ∈ parts, trimSpace part = stmt := by
  rw [trimmedPieces, List.mem_filter, List.mem_map, and_comm]
  simp

/-! The loop -/

theorem Splitter.cut_queries (p : Splitter) :
    p.cut.queries = p.queries ++ trimmedPieces [p.current] := by
  rw [Splitter.cut, trimmedPieces_cons]
  split <;> simp [trimmedPieces]

theorem Splitter.step_eq (p : Splitter) (r : Nat) :
    p.step r = { (if p.quoting.cuts r then p.cut else p.write r) with
      inQuote := (p.quoting.next r).inQuote
      quoteChar := (p.quoting.next r).quoteChar
      escaped := (p.quoting.next r).escaped } := by
  obtain ⟨queries, current, inQuote, quoteChar, escaped⟩ := p
  cases escaped with
  | true => simp [Splitter.step, Splitter.quoting, Quoting.next, Quoting.cuts, Splitter.write]
  | false =>
    by_cases backslash : r = 92
    · simp [Splitter.step, Splitter.quoting, Quoting.next, Quoting.cuts, Splitter.write, backslash]
    · by_cases semicolon : r = 59
      · cases inQuote <;>
          simp [Splitter.step, Splitter.quoting, Quoting.next, Quoting.cuts, Splitter.write,
            Splitter.cut, Splitter.quote, semicolon]
      · by_cases mark : r = 39 ∨ r = 34 ∨ r = 96
        · simp only [Splitter.step, Splitter.quoting, Quoting.next, Quoting.cuts, Splitter.write,
            Splitter.quote, backslash, semicolon, mark, if_true, if_false, false_and,
            beq_eq_false_iff_ne.mpr semicolon, Bool.false_and, Bool.false_eq_true]
          cases inQuote with
          | false => rfl
          | true => by_cases same : r = quoteChar <;> simp [same]
        · simp [Splitter.step, Splitter.quoting, Quoting.next, Quoting.cuts, Splitter.write,
            Splitter.quote, backslash, semicolon, mark]

def Quoting.pieces (q : Quoting) (current : GoString) (rs : List Nat) : List GoString :=
  ListSegments.pieces encodeRune Quoting.next Quoting.cuts q current rs

theorem Splitter.queries_foldl (rs : List Nat) (p : Splitter) :
    (rs.foldl Splitter.step p).cut.queries =
      p.queries ++ trimmedPieces (p.quoting.pieces p.current rs) := by
  induction rs generalizing p with
  | nil => exact p.cut_queries
  | cons r rs ih =>
    rw [List.foldl_cons, ih, Splitter.step_eq, Quoting.pieces, Quoting.pieces, ListSegments.pieces]
    split
    · have written := p.cut_queries
      simp only [Splitter.cut] at written ⊢
      rw [written, trimmedPieces_cons, trimmedPieces_cons]
      simp [Splitter.quoting, trimmedPieces]
    · simp [Splitter.write, Splitter.quoting]

def cutOffsets (query : GoString) : List Nat :=
  offsets encodeRune Quoting.next Quoting.cuts {} 0 (runes query)

theorem splitQueries_eq (query : GoString) :
    splitQueries query = trimmedPieces (segments (encode (runes query)) (cutOffsets query)) := by
  rw [splitQueries, Splitter.queries_foldl]
  exact congrArg trimmedPieces (pieces_eq_segments Quoting.cuts_semicolon {} (runes query))

/-! Well-formed text -/

theorem encode_runes {s : GoString} (wellFormed : valid s = true) : encode (runes s) = s := by
  obtain ⟨rs, scalars, rfl⟩ := valid_iff.mp wellFormed
  rw [runes_encode scalars]

theorem valid_encode_runes (s : GoString) : valid (encode (runes s)) = true :=
  valid_iff.mpr ⟨runes s, scalar_runes s, rfl⟩

theorem cutOffsets_cutsAt {query : GoString} (wellFormed : valid query = true) :
    CutsAt 59 query (cutOffsets query) := by
  have cut : CutsAt 59 ((runes query).flatMap encodeRune) (cutOffsets query) :=
    offsets_cutsFrom Quoting.cuts_semicolon {} 0 (runes query)
  rwa [show (runes query).flatMap encodeRune = query from encode_runes wellFormed] at cut

theorem splitQueries_segments {query : GoString} (wellFormed : valid query = true) :
    splitQueries query = trimmedPieces (segments query (cutOffsets query)) := by
  rw [splitQueries_eq, encode_runes wellFormed]

theorem valid_semicolons {parts : List GoString} (each : ∀ part ∈ parts, valid part = true) :
    valid (joinWith [59] parts) = true := by
  induction parts with
  | nil => rfl
  | cons part parts ih =>
    have rest := ih fun p mem => each p (List.mem_cons_of_mem _ mem)
    cases parts with
    | nil => exact each part (by simp)
    | cons p parts =>
      rw [ListCopies.joinWith_cons (List.cons_ne_nil _ _), List.append_assoc,
        valid_append (each part (by simp)), valid_append rfl]
      exact rest

theorem valid_parts {parts : List GoString} (wellFormed : valid (joinWith [59] parts) = true) :
    ∀ part ∈ parts, valid part = true := by
  induction parts with
  | nil => simp
  | cons part parts ih =>
    cases parts with
    | nil => simpa [joinWith] using wellFormed
    | cons p parts =>
      rw [ListCopies.joinWith_cons (List.cons_ne_nil _ _), List.append_assoc,
        List.singleton_append] at wellFormed
      have cut := valid_cut (i := part.length) wellFormed (List.drop_left ..) rfl
      rw [List.take_left, List.drop_left] at cut
      obtain ⟨-, first, second⟩ := cut
      rw [← List.singleton_append, valid_append rfl] at second
      intro q mem
      rcases List.mem_cons.mp mem with rfl | mem
      · exact first
      · exact ih second q mem

theorem valid_splitQueries (query : GoString) : ∀ stmt ∈ splitQueries query, valid stmt = true := by
  have cut : CutsAt 59 (encode (runes query)) (cutOffsets query) :=
    offsets_cutsFrom Quoting.cuts_semicolon {} 0 (runes query)
  have parts : ∀ part ∈ segments (encode (runes query)) (cutOffsets query), valid part = true := by
    apply valid_parts
    rw [segments, joinWith_segmentsFrom cut]
    exact valid_encode_runes query
  intro stmt mem
  rw [splitQueries_eq] at mem
  obtain ⟨-, part, inside, rfl⟩ := mem_trimmedPieces.mp mem
  exact valid_trimSpace (parts part inside)

/-- The statements are the trimmed pieces of the text between some of its semicolons. -/
def SplitAtSemicolons (query : GoString) : Prop :=
  ∃ cuts, CutsAt 59 query cuts ∧ splitQueries query = trimmedPieces (segments query cuts)

theorem valid_of_splitAtSemicolons {query : GoString} (split : SplitAtSemicolons query) :
    valid query = true := by
  obtain ⟨cuts, cut, eq⟩ := split
  rw [← joinWith_segmentsFrom cut]
  apply valid_semicolons
  intro part mem
  rw [← valid_trimSpace_iff]
  by_cases blank : trimSpace part = []
  · rw [blank]
    rfl
  · apply valid_splitQueries query
    rw [eq, mem_trimmedPieces]
    exact ⟨blank, part, mem, rfl⟩

theorem split_keeps_bytes_iff (query : GoString) :
    SplitAtSemicolons query ↔ valid query = true := by
  constructor
  · exact valid_of_splitAtSemicolons
  · intro wellFormed
    exact ⟨cutOffsets query, cutOffsets_cutsAt wellFormed, splitQueries_segments wellFormed⟩

/-- `é` in Latin-1. -/
theorem split_replaces_latin1 :
    splitQueries (lit "SELECT '" ++ [0xE9] ++ lit "'") =
        [lit "SELECT '" ++ [0xEF, 0xBF, 0xBD] ++ lit "'"] ∧
      ¬ SplitAtSemicolons (lit "SELECT '" ++ [0xE9] ++ lit "'") := by
  refine ⟨by decide +kernel, fun split => ?_⟩
  have wellFormed := valid_of_splitAtSemicolons split
  revert wellFormed
  decide +kernel

end TQDBProxy.MariaDB
