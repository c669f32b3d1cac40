import TQDBProxy.HintRecovery
import TQDBProxy.SqlTokenMarks

/-! What the removal of the hints leaves of a statement. The expression of the
hints is matched in the text, not in its tokens: a match can lie in a literal,
reach over the end of its comment, or be all that keeps two tokens apart. Each
byte of the text is marked with what becomes of it. -/

namespace TQDBProxy.Parser

open Regex SqlTokens

/-- What becomes of a byte: it is part of a match, trimmed as white space, or kept. -/
inductive Fate where
  | kept | removed | trimmed
  deriving DecidableEq

def Fate.isRemoved (f : Fate) : Bool := f == .removed

def Fate.isTrimmed (f : Fate) : Bool := f == .trimmed

/-- Of the bytes outside the matches, `front` are trimmed, then `kept` are kept. -/
def fatesFrom (front kept : Nat) : List (UInt8 × Bool) → List (UInt8 × Fate)
  | [] => []
  | (b, true) :: marks => (b, .removed) :: fatesFrom front kept marks
  | (b, false) :: marks =>
    match front, kept with
    | front + 1, kept => (b, .trimmed) :: fatesFrom front kept marks
    | 0, kept + 1 => (b, .kept) :: fatesFrom 0 kept marks
    | 0, 0 => (b, .trimmed) :: fatesFrom 0 0 marks

def textFates (s : GoString) : List (UInt8 × Fate) :=
  match hintRegex.find none s with
  | none => s.map (·, .kept)
  | some _ =>
    let left := hintRegex.removeAll none 0 s
    fatesFrom (left.length - (Strings.trimLeft left).length) (Strings.trimSpace left).length
      (hintRegex.marks none 0 s)

/-- The bytes of the text, and the end of a line that the end of the text is read as. -/
def fates (s : GoString) : List (UInt8 × Fate) := textFates s ++ [(10, .kept)]

def stripped (s : GoString) : List (UInt8 × Fate) := uncut Fate.isRemoved (fates s)

theorem bytes_fatesFrom (front kept : Nat) (marks : List (UInt8 × Bool)) :
    bytes (fatesFrom front kept marks) = marks.map Prod.fst := by
  induction marks generalizing front kept with
  | nil => rfl
  | cons m marks ih =>
    obtain ⟨b, mark⟩ := m
    cases mark with
    | true => exact congrArg (b :: ·) (ih front kept)
    | false =>
      rcases front with - | front
      · rcases kept with - | kept
        · exact congrArg (b :: ·) (ih 0 0)
        · exact congrArg (b :: ·) (ih 0 kept)
      · exact congrArg (b :: ·) (ih front kept)

theorem bytes_fates (s : GoString) : bytes (fates s) = s ++ [10] := by
  have text : bytes (textFates s) = s := by
    unfold textFates
    split
    · simp [bytes, Function.comp_def]
    · rw [bytes_fatesFrom, Re.marks_fst]
  rw [fates, bytes_append, text]
  rfl

theorem uncut_fatesFrom (marks : List (UInt8 × Bool)) {u q w : GoString}
    (left : (marks.filter (!·.2)).map Prod.fst = u ++ q ++ w) :
    uncut Fate.isRemoved (fatesFrom u.length q.length marks) =
      u.map (·, .trimmed) ++ q.map (·, .kept) ++ w.map (·, .trimmed) := by
  induction marks generalizing u q w with
  | nil =>
    obtain ⟨rfl, rfl, rfl⟩ : u = [] ∧ q = [] ∧ w = [] := by simpa using left
    rfl
  | cons m marks ih =>
    obtain ⟨b, mark⟩ := m
    cases mark with
    | true => exact ih left
    | false =>
      change b :: (marks.filter (!·.2)).map Prod.fst = u ++ q ++ w at left
      rcases u with - | ⟨a, u⟩
      · rcases q with - | ⟨a, q⟩
        · rcases w with - | ⟨a, w⟩
          · cases left
          · obtain ⟨rfl, rest⟩ := List.cons.inj left
            exact congrArg ((b, Fate.trimmed) :: ·) (ih (u := []) (q := []) rest)
        · obtain ⟨rfl, rest⟩ := List.cons.inj left
          exact congrArg ((b, Fate.kept) :: ·) (ih (u := []) rest)
      · obtain ⟨rfl, rest⟩ := List.cons.inj left
        exact congrArg ((b, Fate.trimmed) :: ·) (ih rest)

theorem muted_of_spaceByte {b : UInt8} (blank : Strings.spaceByte b = true) :
    muted b = true := by
  by_contra loud
  have mark : b ∈ ([33, 35, 42, 45, 47, 77] : GoString) := by
    rw [muted, Bool.not_eq_true, Bool.not_eq_false'] at loud
    exact List.contains_iff_mem.mp loud
  have none : ([33, 35, 42, 45, 47, 77] : GoString).all (!Strings.spaceByte ·) = true := by decide
  simpa [blank] using List.all_eq_true.mp none b mark

theorem stripped_eq (s : GoString) :
    ∃ u w : GoString, stripped s = u.map (·, .trimmed) ++ (parse s).query.map (·, .kept) ++
        w.map (·, .trimmed) ++ [(10, .kept)] ∧
        (∀ b ∈ u, muted b = true) ∧ ∀ b ∈ w, muted b = true := by
  have last : uncut Fate.isRemoved [(10, Fate.kept)] = [(10, .kept)] := rfl
  rw [stripped, fates, uncut_append, last]
  unfold textFates
  split
  · rename_i none
    refine ⟨[], [], ?_, by simp, by simp⟩
    rw [parse_unhinted none]
    simp [uncut, Fate.isRemoved, List.filter_eq_self]
  · rename_i m found
    obtain ⟨-, -, -, -, query⟩ := parse_hinted found
    obtain ⟨u, before, ublank⟩ := Strings.trimLeft_split (hintRegex.removeAll none 0 s)
    obtain ⟨w, after, made⟩ :=
      Strings.trimRight_split (Strings.trimLeft (hintRegex.removeAll none 0 s))
    refine ⟨u, w, ?_, fun b mem => muted_of_spaceByte (ublank b mem), fun b mem =>
      muted_of_spaceByte (Strings.spaceByte_of_made made b mem)⟩
    have front : (hintRegex.removeAll none 0 s).length -
        (Strings.trimLeft (hintRegex.removeAll none 0 s)).length = u.length := by
      have lengths := congrArg List.length before
      rw [List.length_append] at lengths
      omega
    have text : ((hintRegex.marks none 0 s).filter (!·.2)).map Prod.fst =
        u ++ Strings.trimSpace (hintRegex.removeAll none 0 s) ++ w := by
      rw [← Re.removeAll_eq, List.append_assoc]
      exact before.trans (congrArg (u ++ ·) after)
    dsimp only
    rw [query, front, uncut_fatesFrom _ text]

/-- The code is the same; only whole comments are removed, and white space is trimmed from no
token but in a comment. -/
structure Preserved (d : Dialect) (s : GoString) : Prop where
  same : code d (parse s).query = code d s
  whole : ∀ t ∈ (read d (fates s)).toks, Whole d Fate.isRemoved t
  unchanged : Kept d Fate.isRemoved (fates s)
  trimmed : ∀ t ∈ (read d (stripped s)).toks, Trimmable d Fate.isTrimmed t

theorem code_stripped {d : Dialect} {s : GoString}
    (whole : ∀ t ∈ (read d (fates s)).toks, Whole d Fate.isRemoved t)
    (unchanged : Kept d Fate.isRemoved (fates s)) :
    significant d (tokens d (bytes (stripped s))) = code d s := by
  rw [code, ← bytes_fates, ← tokens_read, ← tokens_read, stripped, unchanged]
  generalize (read d (fates s)).toks = toks at whole
  unfold significant
  induction toks with
  | nil => rfl
  | cons t toks ih =>
    rw [List.forall_mem_cons] at whole
    rw [List.map_cons, List.flatMap_cons]
    rcases whole.1 with left | ⟨is, -⟩
    · have kept : t.all (fun p => !p.2.isRemoved) = true := by
        rw [List.all_eq_true]
        exact fun p mem => by simp [left p mem]
      rw [List.filter_cons_of_pos (by exact kept), List.map_cons, List.flatMap_cons, ih whole.2]
    · rw [significant_comment is, List.nil_append, ← ih whole.2, List.filter_cons]
      split
      · rw [List.map_cons, List.flatMap_cons, significant_comment is, List.nil_append]
      · rfl

theorem code_query {d : Dialect} {s : GoString}
    (silent : blankTrim d Fate.isTrimmed ⟨.gap, []⟩ (stripped s) = true) :
    code d (parse s).query = significant d (tokens d (bytes (stripped s))) := by
  obtain ⟨u, w, eq, ublank, wblank⟩ := stripped_eq s
  have marked {v : GoString} (blank : ∀ b ∈ v, muted b = true) :
      ∀ p ∈ v.map (·, Fate.trimmed), p.2.isTrimmed = true ∧ muted p.1 = true := by
    intro p mem
    obtain ⟨b, inside, rfl⟩ := List.mem_map.mp mem
    exact ⟨rfl, blank b inside⟩
  have own {v : GoString} {f : Fate} : bytes (v.map (·, f)) = v := by
    simp [bytes, Function.comp_def]
  rw [eq, blankTrim_append, blankTrim_append, blankTrim_append, Bool.and_eq_true, Bool.and_eq_true,
    Bool.and_eq_true] at silent
  obtain ⟨⟨⟨front, -⟩, back⟩, -⟩ := silent
  have passed := run_front (marked ublank) front
  rw [bytes_append, run_append, passed, own] at back
  have text : tokens d (bytes (stripped s)) =
      tokens d ((parse s).query ++ bytes (w.map (·, Fate.trimmed)) ++ [10]) := by
    rw [eq, bytes_append, bytes_append, bytes_append, List.append_assoc, List.append_assoc, tokens,
      lex_append, lex, passed, own, List.append_assoc]
    rfl
  rw [text]
  exact (code_back (marked wblank) back).symm

end TQDBProxy.Parser
