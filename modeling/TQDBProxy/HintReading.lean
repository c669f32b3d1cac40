import Mathlib.Data.List.Nodup
import TQDBProxy.QueryHints

/-! How the expression of the hints reads a comment. It has one place for each kind
of hint, in a fixed order. A comment with its hints in that order is read up to its
end, unless a file name runs on to a later one; with any other order it is not
read at all. -/

namespace TQDBProxy.Parser

open Regex

namespace HintKind

def outer : HintKind → Nat
  | .ttl => 1
  | .file => 3
  | .line => 5
  | .batch => 7

def inner (kind : HintKind) : Nat := kind.outer + 1

def re (kind : HintKind) : Re UInt8 :=
  .opt (.group kind.outer (.seq (.text kind.key) (.group kind.inner (.plus (.one kind.takes)))))

end HintKind

/-- The expression from a place between two hints on, with the kinds still to come. -/
def hintTail : List HintKind → Re UInt8
  | [] => .seq spaces (.seq (.text (lit "*/")) .empty)
  | kind :: kinds => .seq spaces (.seq kind.re (hintTail kinds))

def parserOrder : List HintKind := [.ttl, .file, .line, .batch]

theorem hintRegex_eq : hintRegex = .seq (.text (lit "/*")) (hintTail parserOrder) := rfl

theorem takes_re {kind : HintKind} {w : GoString} (takes : kind.re.Takes w) :
    w = [] ∨ ∃ value, w = kind.key ++ value ∧ value ≠ [] ∧ ∀ b ∈ value, kind.takes b = true := by
  rcases takes with ⟨u, value, rfl, key, taken⟩ | empty
  · right
    rw [(takes_text _ u).mp key]
    exact ⟨value, rfl, (takes_plus_one _ value).mp taken⟩
  · exact .inl empty

theorem takes_tail_cons {kind : HintKind} {kinds : List HintKind} {w : GoString}
    (takes : (hintTail (kind :: kinds)).Takes w) :
    ∃ blanks hint rest, w = blanks ++ (hint ++ rest) ∧ (∀ b ∈ blanks, space b = true) ∧
      kind.re.Takes hint ∧ (hintTail kinds).Takes rest := by
  obtain ⟨blanks, more, rfl, spaced, hint, rest, rfl, taken, tail⟩ := takes
  exact ⟨blanks, hint, rest, rfl, (takes_star_one _ blanks).mp spaced, taken, tail⟩

theorem takes_tail_nil {w : GoString} (takes : (hintTail []).Takes w) :
    ∃ blanks, w = blanks ++ lit "*/" ∧ ∀ b ∈ blanks, space b = true := by
  obtain ⟨blanks, more, rfl, spaced, close, rest, rfl, taken, empty⟩ := takes
  obtain rfl : rest = [] := empty
  rw [(takes_text _ close).mp taken, List.append_nil]
  exact ⟨blanks, rfl, (takes_star_one _ blanks).mp spaced⟩

theorem ends_of_tail {kinds : List HintKind} {w : GoString} (takes : (hintTail kinds).Takes w) :
    ∃ v, w = v ++ lit "*/" := by
  induction kinds generalizing w with
  | nil =>
    obtain ⟨blanks, rfl, -⟩ := takes_tail_nil takes
    exact ⟨blanks, rfl⟩
  | cons kind kinds ih =>
    obtain ⟨blanks, hint, rest, rfl, -, -, tail⟩ := takes_tail_cons takes
    obtain ⟨v, rfl⟩ := ih tail
    exact ⟨blanks ++ (hint ++ v), by simp [List.append_assoc]⟩

theorem takes_not_space {kind : HintKind} {b : UInt8} (takes : kind.takes b = true) :
    space b = false := by
  have digits (isDigit : digit b = true) : space b = false := by
    have range : 48 ≤ b.toNat ∧ b.toNat ≤ 57 := by
      simpa [digit, UInt8.le_iff_toNat_le] using isDigit
    simp only [space, Bool.or_eq_false_iff, beq_eq_false_iff_ne, ne_eq, ← UInt8.toNat_inj]
    simp
    omega
  cases kind with
  | file => simpa [HintKind.takes] using takes
  | ttl | line | batch => exact digits takes

theorem key_not_space (kind : HintKind) : ∀ b ∈ kind.key, space b = false := by
  have all : kind.key.all (!space ·) = true := by cases kind <;> decide
  intro b mem
  simpa using List.all_eq_true.mp all b mem

def HintKind.initial : HintKind → UInt8
  | .ttl => 116
  | .file => 102
  | .line => 108
  | .batch => 98

theorem key_eq (kind : HintKind) : ∃ name, kind.key = kind.initial :: name := by
  cases kind <;> exact ⟨_, rfl⟩

theorem initial_ne_star (kind : HintKind) : kind.initial ≠ 42 := by
  cases kind <;> decide

theorem kind_of_key {kind kind' : HintKind} {s t : GoString} (eq : kind.key ++ s = kind'.key ++ t) :
    kind = kind' ∧ s = t := by
  obtain ⟨name, key⟩ := key_eq kind
  obtain ⟨name', key'⟩ := key_eq kind'
  rw [key, key'] at eq
  have first : kind.initial = kind'.initial := (List.cons.inj eq).1
  obtain rfl : kind = kind' := by
    revert first
    cases kind <;> cases kind' <;> decide
  obtain rfl : name = name' := List.tail_eq_of_cons_eq (key.symm.trans key')
  exact ⟨rfl, List.append_cancel_left eq⟩

theorem hints_head (parts : List (Hint × GoString)) (q : GoString) :
    ∃ b rest, hintsText parts ++ (lit "*/" ++ q) = b :: rest ∧ space b = false ∧
      (b = 42 → parts = []) := by
  cases parts with
  | nil => exact ⟨42, 47 :: q, rfl, by decide, fun _ => rfl⟩
  | cons p parts =>
    obtain ⟨name, key⟩ := key_eq p.1.kind
    refine ⟨p.1.kind.initial, name ++ p.1.value ++ p.2 ++ hintsText parts ++ (lit "*/" ++ q), ?_,
      key_not_space p.1.kind _ (by rw [key]; simp), fun star => absurd star (initial_ne_star _)⟩
    simp [hintsText, Hint.text, key, List.append_assoc]

theorem split_blanks {blanks X gap s t : GoString} (eq : X ++ (gap ++ t) = blanks ++ s)
    (spaced : ∀ b ∈ blanks, space b = true) (word : ∀ b ∈ X, space b = false)
    (blank : gap.all space = true) (head : ∃ b rest, t = b :: rest ∧ space b = false) :
    ∃ gap', X ++ (gap' ++ t) = s ∧ gap'.all space = true ∧ (X ≠ [] → gap' = gap) := by
  cases X with
  | cons x X =>
    cases blanks with
    | nil => exact ⟨gap, eq, blank, fun _ => rfl⟩
    | cons y blanks =>
      obtain ⟨rfl, -⟩ := List.cons.inj eq
      have clash := spaced x (by simp)
      rw [word x (by simp)] at clash
      cases clash
  | nil =>
    rw [List.nil_append] at eq
    rcases List.append_eq_append_iff.mp eq with ⟨z, rfl, same⟩ | ⟨z, rfl, same⟩
    · obtain ⟨b, rest, rfl, other⟩ := head
      cases z with
      | nil => exact ⟨[], same, rfl, fun some => absurd rfl some⟩
      | cons c z =>
        obtain ⟨rfl, -⟩ := List.cons.inj same
        have clash := spaced b (by simp)
        rw [other] at clash
        cases clash
    · rw [List.all_append] at blank
      exact ⟨z, same.symm, (Bool.and_eq_true_iff.mp blank).2, fun some => absurd rfl some⟩

theorem split_word {s X gap t u : GoString} (eq : X ++ (gap ++ t) = s ++ u)
    (word : ∀ b ∈ s, space b = false) (blank : gap.all space = true) :
    (∃ X', X = s ++ X' ∧ X' ++ (gap ++ t) = u) ∨ gap = [] := by
  rcases List.append_eq_append_iff.mp eq with ⟨z, rfl, same⟩ | ⟨z, rfl, same⟩
  · cases gap with
    | nil => exact .inr rfl
    | cons x gap =>
      cases z with
      | nil => exact .inl ⟨[], by simp, same⟩
      | cons y z =>
        obtain ⟨rfl, -⟩ := List.cons.inj same
        have clash := (Bool.and_eq_true_iff.mp blank).1
        rw [word x (by simp)] at clash
        cases clash
  · exact .inl ⟨z, rfl, same.symm⟩

def Sealed (s : GoString) : Prop := ¬ lit "*/" <:+: s

theorem sealed_nil : Sealed [] := fun inside => absurd (List.infix_nil.mp inside) (by decide)

theorem Sealed.right {s t : GoString} (whole : Sealed (s ++ t)) : Sealed t := fun inside =>
  whole (inside.trans (List.suffix_append s t).isInfix)

theorem sealed_value (h : Hint) (whole : h.kind = .file → Sealed h.value) : Sealed h.value := by
  by_cases file : h.kind = .file
  · exact whole file
  · intro inside
    have star : (42 : UInt8) ∈ h.value := inside.subset (by decide)
    have taken := List.all_eq_true.mp h.fits 42 star
    cases kind : h.kind with
    | file => exact file kind
    | ttl | line | batch =>
      rw [kind] at taken
      exact absurd taken (by decide)

/-- Hints whose gaps are white space, with none missing between two hints, and whose file
name does not end the comment. -/
structure Laid (parts : List (Hint × GoString)) : Prop where
  gaps : ∀ p ∈ parts, p.2.all space = true
  apart : ∀ p ∈ parts.dropLast, p.2 ≠ []
  whole : ∀ p ∈ parts, p.1.kind = .file → Sealed p.1.value

theorem Laid.tail {p : Hint × GoString} {parts : List (Hint × GoString)}
    (laid : Laid (p :: parts)) :
    Laid parts where
  gaps p' mem := laid.gaps p' (by simp [mem])
  apart p' mem := laid.apart p' (by
    cases parts with
    | nil => cases mem
    | cons q parts => exact List.mem_cons_of_mem p mem)
  whole p' mem := laid.whole p' (by simp [mem])

theorem Laid.last {p : Hint × GoString} {parts : List (Hint × GoString)} (laid : Laid (p :: parts))
    (closed : p.2 = []) : parts = [] := by
  cases parts with
  | nil => rfl
  | cons q parts => exact absurd closed (laid.apart p (by simp))

theorem hint_word {kind : HintKind} {value : GoString} (bytes : ∀ b ∈ value, kind.takes b = true) :
    ∀ b ∈ kind.key ++ value, space b = false := by
  intro b mem
  rcases List.mem_append.mp mem with mem | mem
  · exact key_not_space kind b mem
  · exact takes_not_space (bytes b mem)

theorem nil_of_close {X gap : GoString} {parts : List (Hint × GoString)} {q rest : GoString}
    (eq : X ++ (gap ++ (hintsText parts ++ (lit "*/" ++ q))) = lit "*/" ++ rest)
    (whole : Sealed X) (blank : gap.all space = true) (last : X ≠ [] → gap = [] → parts = []) :
    parts = [] := by
  have notBlank {x : UInt8} {gap : GoString} (blank : (x :: gap).all space = true) :
      space x = true :=
    (Bool.and_eq_true_iff.mp blank).1
  cases X with
  | nil =>
    cases gap with
    | nil =>
      obtain ⟨b, more, head, -, close⟩ := hints_head parts q
      rw [List.nil_append, List.nil_append, head] at eq
      exact close (List.cons.inj eq).1
    | cons x gap =>
      obtain ⟨rfl, -⟩ := List.cons.inj eq
      exact absurd (notBlank blank) (by decide)
  | cons x X =>
    obtain ⟨rfl, more⟩ := List.cons.inj eq
    cases X with
    | cons y X =>
      obtain ⟨rfl, -⟩ := List.cons.inj more
      exact absurd ⟨[], X, rfl⟩ whole
    | nil =>
      cases gap with
      | nil => exact last (by simp) rfl
      | cons y gap =>
        obtain ⟨rfl, -⟩ := List.cons.inj more
        exact absurd (notBlank blank) (by decide)

/-- The expression reads a comment only when the hints are in its order. `X` is the rest of a
value that it has read in part. -/
theorem sublist_of_takes (kinds : List HintKind) {X gap : GoString} {parts : List (Hint × GoString)}
    {q w rest : GoString} (takes : (hintTail kinds).Takes w)
    (eq : X ++ (gap ++ (hintsText parts ++ (lit "*/" ++ q))) = w ++ rest)
    (word : ∀ b ∈ X, space b = false) (whole : Sealed X) (blank : gap.all space = true)
    (laid : Laid parts) (last : X ≠ [] → gap = [] → parts = []) :
    (parts.map (·.1.kind)).Sublist kinds := by
  have head (parts : List (Hint × GoString)) :
      ∃ b rest, hintsText parts ++ (lit "*/" ++ q) = b :: rest ∧ space b = false := by
    obtain ⟨b, more, eq, other, -⟩ := hints_head parts q
    exact ⟨b, more, eq, other⟩
  induction kinds generalizing X gap parts w with
  | nil =>
    obtain ⟨blanks, rfl, spaced⟩ := takes_tail_nil takes
    rw [List.append_assoc] at eq
    obtain ⟨gap', eq', blank', same⟩ := split_blanks eq spaced word blank (head parts)
    have none : parts = [] :=
      nil_of_close eq' whole blank' fun some closed => last some (same some ▸ closed)
    rw [none]
    exact List.Sublist.slnil
  | cons kind kinds ih =>
    obtain ⟨blanks, hint, tail, rfl, spaced, taken, takes'⟩ := takes_tail_cons takes
    rw [List.append_assoc, List.append_assoc] at eq
    obtain ⟨gap', eq', blank', same⟩ := split_blanks eq spaced word blank (head parts)
    have last' : X ≠ [] → gap' = [] → parts = [] := fun some closed =>
      last some (same some ▸ closed)
    rcases takes_re taken with rfl | ⟨value, rfl, -, bytes⟩
    · exact (ih takes' eq' word whole blank' laid last').cons kind
    · rcases split_word eq' (hint_word bytes) blank' with ⟨X', rfl, eq''⟩ | rfl
      · -- the hint was read from the rest of a value
        obtain ⟨name, key⟩ := key_eq kind
        exact (ih takes' eq'' (fun b mem => word b (by simp [mem])) whole.right blank' laid
          (fun _ => last' (by simp [key]))).cons kind
      · cases X with
        | cons x X =>
          rw [last' (by simp) rfl]
          exact List.nil_sublist _
        | nil =>
          cases parts with
          | nil => exact List.nil_sublist _
          | cons p parts =>
            have shape :
              p.1.kind.key ++ (p.1.value ++ (p.2 ++ (hintsText parts ++ (lit "*/" ++ q)))) =
                kind.key ++ (value ++ (tail ++ rest)) := by
              simpa [hintsText, Hint.text, List.append_assoc] using eq'
            obtain ⟨rfl, values⟩ := kind_of_key shape
            have gap := laid.gaps p (by simp)
            rw [List.map_cons]
            rcases split_word values (fun b mem => takes_not_space (bytes b mem)) gap with
              ⟨X', split, eq''⟩ | closed
            · have own : ∀ b ∈ p.1.value, space b = false := fun b mem =>
                takes_not_space (List.all_eq_true.mp p.1.fits b mem)
              have whole := sealed_value p.1 (laid.whole p (by simp))
              rw [split] at own whole
              exact (ih takes' eq'' (fun b mem => own b (by simp [mem])) whole.right gap laid.tail
                (fun _ closed => laid.last closed)).cons_cons _
            · rw [laid.last closed]
              exact (List.nil_sublist _).cons_cons _

def captured : List (Hint × GoString) → List (Nat × GoString) → List (Nat × GoString)
  | [], groups => groups
  | p :: parts, groups =>
    captured parts ((p.1.kind.outer, p.1.text) :: (p.1.kind.inner, p.1.value) :: groups)

theorem hintsText_cons (p : Hint × GoString) (parts : List (Hint × GoString)) (s : GoString) :
    hintsText (p :: parts) ++ s = p.1.kind.key ++
      (p.1.value ++ (p.2 ++ (hintsText parts ++ s))) := by
  simp [hintsText, Hint.text, List.append_assoc]

theorem plain_tail (kinds : List HintKind) : (hintTail kinds).plain = true := by
  induction kinds with
  | nil => decide
  | cons kind kinds ih =>
    have first : kind.re.plain = true := by cases kind <;> decide
    exact Bool.and_eq_true_iff.mpr ⟨rfl, Bool.and_eq_true_iff.mpr ⟨first, ih⟩⟩

theorem takes_hint (h : Hint) : h.kind.re.Takes h.text :=
  .inl ⟨h.kind.key, h.value, rfl, (takes_text _ _).mpr rfl,
    (takes_plus_one _ _).mpr ⟨h.some, List.all_eq_true.mp h.fits⟩⟩

def closeHint (kind : HintKind) (s : GoString) (d : Cursor UInt8) : Cursor UInt8 :=
  ⟨d.before, d.input,
    (kind.outer, (kind.key ++ s).take ((kind.key ++ s).length - d.input.length)) ::
    (kind.inner, s.take (s.length - d.input.length)) :: d.groups⟩

theorem closeHint_eq (kind : HintKind) (value rest : GoString) (before : Option UInt8)
    (groups : List (Nat × GoString)) :
    closeHint kind (value ++ rest) ⟨before, rest, groups⟩ =
      ⟨before, rest, (kind.outer, kind.key ++ value) :: (kind.inner, value) :: groups⟩ := by
  have text :
    (kind.key ++ (value ++ rest)).take ((kind.key ++ (value ++ rest)).length - rest.length) =
      kind.key ++ value := by
    rw [← List.append_assoc]
    simp only [List.length_append, Nat.add_sub_cancel]
    rw [← List.length_append, List.take_left]
  have own : (value ++ rest).take ((value ++ rest).length - rest.length) = value := by simp
  simp only [closeHint, text, own]

theorem matchFrom_skip {kind : HintKind} {s : GoString} (other : s.head? ≠ some kind.initial)
    (r : Re UInt8) (before : Option UInt8) (groups : List (Nat × GoString))
    (k : Cursor UInt8 → Option (Cursor UInt8)) :
    (Re.seq kind.re r).matchFrom ⟨before, s, groups⟩ k = r.matchFrom ⟨before, s, groups⟩ k := by
  obtain ⟨name, key⟩ := key_eq kind
  simp only [HintKind.re, Re.opt, Re.matchFrom, key, matchFrom_text_none name other]

theorem matchFrom_take {kind : HintKind} {x : UInt8} (takes : kind.takes x = true) (s : GoString)
    (r : Re UInt8) (before : Option UInt8) (groups : List (Nat × GoString))
    (k : Cursor UInt8 → Option (Cursor UInt8))
    (found : ((Re.star (.one kind.takes)).matchFrom ⟨some x, s, groups⟩
      fun d => r.matchFrom (closeHint kind (x :: s) d) k).isSome = true) :
    (Re.seq kind.re r).matchFrom ⟨before, kind.key ++ x :: s, groups⟩ k =
      (Re.star (.one kind.takes)).matchFrom ⟨some x, s, groups⟩
        fun d => r.matchFrom (closeHint kind (x :: s) d) k := by
  have inside : (Re.group kind.outer (.seq (.text kind.key)
      (.group kind.inner (.plus (.one kind.takes))))).matchFrom ⟨before, kind.key ++ x :: s, groups⟩
        (fun d => r.matchFrom d k) =
      (Re.star (.one kind.takes)).matchFrom ⟨some x, s, groups⟩
        fun d => r.matchFrom (closeHint kind (x :: s) d) k := by
    rw [Re.matchFrom, Re.matchFrom]
    obtain ⟨b, eq⟩ := matchFrom_text kind.key (x :: s) before groups fun d =>
      (Re.group kind.inner (.plus (.one kind.takes))).matchFrom d fun d =>
        r.matchFrom { d with groups := (kind.outer, (kind.key ++ x :: s).take
          ((kind.key ++ x :: s).length - d.input.length)) :: d.groups } k
    refine eq.trans ?_
    simp only [Re.plus, Re.matchFrom, takes, if_true]
    rfl
  rw [HintKind.re, Re.matchFrom, Re.opt, Re.matchFrom, inside]
  generalize (Re.star (.one kind.takes)).matchFrom ⟨some x, s, groups⟩
    (fun d => r.matchFrom (closeHint kind (x :: s) d) k) = result at found
  cases result with
  | none => cases found
  | some m => rfl

def afterFile : List HintKind → List HintKind
  | [] => []
  | kind :: kinds => if kind = .file then kinds else afterFile kinds

/-- A file name that ends right before the end of its comment runs on to a later one. -/
def Overruns (kinds : List HintKind) (q : GoString) : Prop :=
  ∃ u w rest, lit "*/" ++ q = u ++ (w ++ rest) ∧ u ≠ [] ∧ (∀ b ∈ u, space b = false) ∧
    (hintTail (afterFile kinds)).Takes w

def OpenFile (parts : List (Hint × GoString)) : Prop :=
  ∃ p, parts.getLast? = some p ∧ p.1.kind = .file ∧ p.2 = []

section Ordered

variable {kinds : List HintKind} {parts : List (Hint × GoString)} {gap : GoString}

theorem takes_seq {kind : HintKind} (ordered : (parts.map (·.1.kind)).Sublist (kind :: kinds))
    (gaps : ∀ p ∈ parts, p.2.all space = true)
    (rest : ∀ {parts : List (Hint × GoString)} {gap : GoString},
      (parts.map (·.1.kind)).Sublist kinds → gap.all space = true →
      (∀ p ∈ parts, p.2.all space = true) →
      (hintTail kinds).Takes (gap ++ (hintsText parts ++ lit "*/"))) :
    (Re.seq kind.re (hintTail kinds)).Takes (hintsText parts ++ lit "*/") := by
  rcases List.sublist_cons_iff.mp ordered with later | ⟨others, eq, later⟩
  · exact ⟨[], _, rfl, .inr rfl, rest later (show ([] : GoString).all space = true from rfl) gaps⟩
  · cases parts with
    | nil => cases eq
    | cons p parts =>
      obtain ⟨rfl, rfl⟩ := List.cons.inj eq
      refine ⟨p.1.text, p.2 ++ (hintsText parts ++ lit "*/"), ?_, takes_hint p.1,
        rest later (gaps p (by simp)) fun p' mem => gaps p' (by simp [mem])⟩
      rw [hintsText_cons, Hint.text, List.append_assoc]

theorem takes_parts (ordered : (parts.map (·.1.kind)).Sublist kinds) (blank : gap.all space = true)
    (gaps : ∀ p ∈ parts, p.2.all space = true) :
    (hintTail kinds).Takes (gap ++ (hintsText parts ++ lit "*/")) := by
  have blanks := (takes_star_one space gap).mpr (List.all_eq_true.mp blank)
  induction kinds generalizing parts gap with
  | nil =>
    obtain rfl : parts = [] := List.map_eq_nil_iff.mp (List.sublist_nil.mp ordered)
    exact ⟨gap, lit "*/", rfl, blanks, lit "*/", [], rfl, (takes_text _ _).mpr rfl, rfl⟩
  | cons kind kinds ih =>
    exact ⟨gap, _, rfl, blanks, takes_seq ordered gaps fun ordered blank gaps =>
      ih ordered blank gaps ((takes_star_one space _).mpr (List.all_eq_true.mp blank))⟩

theorem tail_isSome (ordered : (parts.map (·.1.kind)).Sublist kinds) (blank : gap.all space = true)
    (gaps : ∀ p ∈ parts, p.2.all space = true) (q : GoString) (before : Option UInt8)
    (groups : List (Nat × GoString)) :
    ((hintTail kinds).matchFrom ⟨before, gap ++ (hintsText parts ++ (lit "*/" ++ q)), groups⟩
      some).isSome = true := by
  have input : gap ++ (hintsText parts ++ (lit "*/" ++ q)) =
      gap ++ (hintsText parts ++ lit "*/") ++ q := by simp [List.append_assoc]
  exact (hintTail kinds).matchFrom_isSome (plain_tail kinds) (takes_parts ordered blank gaps) input
    fun _ _ => rfl

theorem tail_blanks {kind : HintKind} (ordered : (parts.map (·.1.kind)).Sublist (kind :: kinds))
    (blank : gap.all space = true) (gaps : ∀ p ∈ parts, p.2.all space = true) (q : GoString)
    (before : Option UInt8) (groups : List (Nat × GoString)) :
    ∃ b, (hintTail (kind :: kinds)).matchFrom
        ⟨before, gap ++ (hintsText parts ++ (lit "*/" ++ q)), groups⟩ some =
      (Re.seq kind.re (hintTail kinds)).matchFrom
        ⟨b, hintsText parts ++ (lit "*/" ++ q), groups⟩ some := by
  refine matchFrom_star_run (List.all_eq_true.mp blank) (fun x first => ?_) before fun b => ?_
  · obtain ⟨y, rest, eq, other, -⟩ := hints_head parts q
    rw [eq] at first
    obtain rfl : y = x := Option.some.inj first
    exact other
  · have plain := (Bool.and_eq_true_iff.mp (plain_tail (kind :: kinds))).2
    have input : hintsText parts ++ (lit "*/" ++ q) = (hintsText parts ++ lit "*/") ++ q :=
      (List.append_assoc ..).symm
    exact Re.matchFrom_isSome _ plain (takes_seq ordered gaps takes_parts) input fun _ _ => rfl

/-- A value is read as far as the rest of the expression allows, and at least as far as it
allows once. -/
theorem tail_take (h : Hint) {u₀ v₀ : GoString} (more : ∀ b ∈ u₀, h.kind.takes b = true)
    (done : ∀ before groups, ((hintTail kinds).matchFrom ⟨before, v₀, groups⟩ some).isSome = true)
    (before : Option UInt8) (groups : List (Nat × GoString)) :
    ∃ b u v, v₀ = u ++ v ∧ (∀ b ∈ u, h.kind.takes b = true) ∧
      (Re.seq h.kind.re (hintTail kinds)).matchFrom
          ⟨before, h.kind.key ++ (h.value ++ (u₀ ++ v₀)), groups⟩ some =
        (hintTail kinds).matchFrom ⟨b, v, (h.kind.outer, h.kind.key ++ (h.value ++ u₀ ++ u)) ::
          (h.kind.inner, h.value ++ u₀ ++ u) :: groups⟩ some ∧
      ((hintTail kinds).matchFrom ⟨b, v, (h.kind.outer, h.kind.key ++ (h.value ++ u₀ ++ u)) ::
          (h.kind.inner, h.value ++ u₀ ++ u) :: groups⟩ some).isSome = true := by
  obtain ⟨x, value, eq⟩ := List.exists_cons_of_ne_nil h.some
  have fits := List.all_eq_true.mp h.fits
  rw [eq] at fits ⊢
  obtain ⟨first, others⟩ := List.forall_mem_cons.mp fits
  have closes (b : Option UInt8) (u v : GoString) (split : v₀ = u ++ v) :
      closeHint h.kind (x :: (value ++ (u₀ ++ v₀))) ⟨b, v, groups⟩ =
        ⟨b, v, (h.kind.outer, h.kind.key ++ (x :: value ++ u₀ ++ u)) ::
          (h.kind.inner, x :: value ++ u₀ ++ u) :: groups⟩ := by
    rw [← closeHint_eq, split]
    simp [List.append_assoc]
  have run : ∀ b ∈ value ++ u₀, h.kind.takes b = true := by
    intro b mem
    rcases List.mem_append.mp mem with mem | mem
    · exact others b mem
    · exact more b mem
  have reads (b : Option UInt8) : ((hintTail kinds).matchFrom
      (closeHint h.kind (x :: (value ++ (u₀ ++ v₀))) ⟨b, v₀, groups⟩) some).isSome = true := by
    rw [closes b [] v₀ rfl]
    exact done _ _
  obtain ⟨b, u, v, split, each, found, same⟩ := matchFrom_star_longest
    (k := fun d => (hintTail kinds).matchFrom
      (closeHint h.kind (x :: (value ++ (u₀ ++ v₀))) d) some)
    run (some x) reads
  rw [List.append_assoc] at same
  rw [closes b u v split] at found same
  refine ⟨b, u, v, split, each, ?_, found⟩
  rw [List.cons_append, matchFrom_take first _ _ _ _ _ (by rw [same]; exact found)]
  exact same

theorem head_cases {kind : HintKind} (q : GoString) (nodup : (kind :: kinds).Nodup)
    (ordered : (parts.map (·.1.kind)).Sublist (kind :: kinds)) :
    (∃ p rest, parts = p :: rest ∧ p.1.kind = kind ∧ (rest.map (·.1.kind)).Sublist kinds) ∨
      (parts.map (·.1.kind)).Sublist kinds ∧
        (hintsText parts ++ (lit "*/" ++ q)).head? ≠ some kind.initial := by
  have injective {k k' : HintKind} (same : k.initial = k'.initial) : k = k' := by
    revert same
    cases k <;> cases k' <;> decide
  rcases List.sublist_cons_iff.mp ordered with later | ⟨others, eq, later⟩
  · refine .inr ⟨later, ?_⟩
    cases parts with
    | nil => exact fun star => initial_ne_star kind (Option.some.inj star).symm
    | cons p parts =>
      intro first
      obtain ⟨name, key⟩ := key_eq p.1.kind
      rw [hintsText_cons, key] at first
      have same := injective (Option.some.inj first)
      exact (List.nodup_cons.mp nodup).1 (same ▸ later.subset (by simp))
  · cases parts with
    | nil => cases eq
    | cons p parts =>
      obtain ⟨same, rfl⟩ := List.cons.inj eq
      exact .inl ⟨p, parts, rfl, same, later⟩

theorem value_ends {p : Hint × GoString} {q u v : GoString} (laid : Laid (p :: parts))
    (split : p.2 ++ (hintsText parts ++ (lit "*/" ++ q)) = u ++ v)
    (each : ∀ b ∈ u, p.1.kind.takes b = true) :
    u = [] ∨ parts = [] ∧ p.1.kind = .file ∧ p.2 = [] := by
  cases u with
  | nil => exact .inl rfl
  | cons y u =>
    have first := each y (by simp)
    cases gap : p.2 with
    | cons x gap' =>
      rw [gap] at split
      obtain ⟨rfl, -⟩ := List.cons.inj split
      have blank := laid.gaps p (by simp)
      rw [gap] at blank
      have clash := (Bool.and_eq_true_iff.mp blank).1
      rw [takes_not_space first] at clash
      cases clash
    | nil =>
      obtain rfl := laid.last gap
      rw [gap] at split
      obtain ⟨rfl, -⟩ := List.cons.inj split
      refine .inr ⟨rfl, ?_, rfl⟩
      cases kind : p.1.kind with
      | file => rfl
      | ttl | line | batch =>
        rw [kind] at first
        exact absurd first (by decide)

theorem OpenFile.cons {p : Hint × GoString} (opened : OpenFile parts) : OpenFile (p :: parts) := by
  obtain ⟨f, last, file, closed⟩ := opened
  cases parts with
  | nil => cases last
  | cons p' parts => exact ⟨f, by rw [List.getLast?_cons_cons, last], file, closed⟩

theorem OpenFile.mem (opened : OpenFile parts) (ordered : (parts.map (·.1.kind)).Sublist kinds) :
    .file ∈ kinds := by
  obtain ⟨f, last, file, -⟩ := opened
  exact ordered.subset (List.mem_map.mpr ⟨f, List.mem_of_getLast? last, file⟩)

theorem overruns_cons {kind : HintKind} (nodup : (kind :: kinds).Nodup) (file : .file ∈ kinds)
    (q : GoString) : Overruns (kind :: kinds) q ↔ Overruns kinds q := by
  have other : kind ≠ .file := fun same => (List.nodup_cons.mp nodup).1 (same ▸ file)
  rw [Overruns, Overruns, afterFile, if_neg other]

theorem tail_found {q : GoString} (nodup : kinds.Nodup)
    (ordered : (parts.map (·.1.kind)).Sublist kinds) (blank : gap.all space = true)
    (laid : Laid parts) (contained : OpenFile parts → ¬ Overruns kinds q) (before : Option UInt8)
    (groups : List (Nat × GoString)) :
    ∃ b, (hintTail kinds).matchFrom ⟨before, gap ++ (hintsText parts ++ (lit "*/" ++ q)), groups⟩
      some =
      some ⟨b, q, captured parts groups⟩ := by
  induction kinds generalizing parts gap before groups with
  | nil =>
    obtain rfl : parts = [] := List.map_eq_nil_iff.mp (List.sublist_nil.mp ordered)
    have close (b : Option UInt8) : ∃ b', (Re.seq (.text (lit "*/")) .empty).matchFrom
        ⟨b, lit "*/" ++ q, groups⟩ some = some ⟨b', q, groups⟩ :=
      matchFrom_text (lit "*/") q b groups some
    have done (b : Option UInt8) : ((Re.seq (.text (lit "*/")) .empty).matchFrom
        ⟨b, lit "*/" ++ q, groups⟩ some).isSome = true := by
      obtain ⟨b', eq⟩ := close b
      rw [eq]
      rfl
    have ends : ∀ x ∈ (lit "*/" ++ q).head?, space x = false := by
      intro x first
      obtain rfl : 42 = x := Option.some.inj first
      decide
    obtain ⟨b, run⟩ := matchFrom_star_run
      (k := fun d => (Re.seq (.text (lit "*/")) .empty).matchFrom d some)
      (List.all_eq_true.mp blank) ends before done
    obtain ⟨b', eq⟩ := close b
    exact ⟨b', run.trans eq⟩
  | cons kind kinds ih =>
    obtain ⟨b, skipped⟩ := tail_blanks ordered blank laid.gaps q before groups
    have rest := (List.nodup_cons.mp nodup).2
    rw [skipped]
    rcases head_cases q nodup ordered with ⟨p, parts, rfl, rfl, later⟩ | ⟨later, other⟩
    · have done := tail_isSome later (laid.gaps p (by simp)) laid.tail.gaps q
      obtain ⟨b', u, v, split, each, eq, found⟩ :=
        tail_take p.1 (List.forall_mem_nil _) done b groups
      by_cases none : u = []
      · subst none
        obtain rfl : p.2 ++ (hintsText parts ++ (lit "*/" ++ q)) = v := split
        obtain ⟨b'', eq'⟩ := ih rest later (laid.gaps p (by simp)) laid.tail
          (fun opened runsOn =>
            contained opened.cons ((overruns_cons nodup (opened.mem later) q).mpr runsOn))
          b' ((p.1.kind.outer, p.1.text) :: (p.1.kind.inner, p.1.value) :: groups)
        rw [List.nil_append, List.append_nil, List.append_nil, ← hintsText_cons] at eq
        exact ⟨b'', eq.trans eq'⟩
      · -- only a file name that ends at the end of the comment can be read beyond it
        obtain ⟨rfl, file, closed⟩ := (value_ends laid split each).resolve_left none
        obtain ⟨m, read⟩ := Option.isSome_iff_exists.mp found
        obtain ⟨w, d, input, takes, -⟩ := (hintTail kinds).takes_of_matchFrom read
        obtain rfl : v = w ++ d.input := input
        rw [closed] at split
        refine absurd ⟨u, w, d.input, split, none, fun b mem => takes_not_space (each b mem), ?_⟩
          (contained ⟨p, rfl, file, closed⟩)
        rw [afterFile, if_pos file]
        exact takes
    · rw [matchFrom_skip other]
      exact ih rest later (show ([] : GoString).all space = true from rfl) laid
        (fun opened runsOn => contained opened
          ((overruns_cons nodup (opened.mem later) q).mpr runsOn))
        b groups

theorem not_slash_of_tail {w : GoString} : ¬ (hintTail kinds).Takes (47 :: w) := by
  intro takes
  induction kinds with
  | nil =>
    obtain ⟨blanks, eq, spaced⟩ := takes_tail_nil takes
    cases blanks with
    | nil => exact absurd (List.cons.inj eq).1 (by decide)
    | cons x blanks =>
      obtain ⟨rfl, -⟩ := List.cons.inj eq
      exact absurd (spaced 47 (by simp)) (by decide)
  | cons kind kinds ih =>
    obtain ⟨blanks, hint, rest, eq, spaced, taken, tail⟩ := takes_tail_cons takes
    cases blanks with
    | cons x blanks =>
      obtain ⟨rfl, -⟩ := List.cons.inj eq
      exact absurd (spaced 47 (by simp)) (by decide)
    | nil =>
      rcases takes_re taken with rfl | ⟨value, rfl, -, -⟩
      · exact ih (eq ▸ tail)
      · obtain ⟨name, key⟩ := key_eq kind
        rw [key] at eq
        have first : 47 = kind.initial := (List.cons.inj eq).1
        revert first
        cases kind <;> decide

theorem slash_lost {q z w t : GoString} (eq : lit "*/" ++ q = z ++ (w ++ t)) (some : z ≠ [])
    (takes : (hintTail kinds).Takes w) : ∃ x, q = x ++ t ∧ 47 ∈ x := by
  obtain ⟨w', rfl⟩ := ends_of_tail takes
  obtain ⟨y, z, rfl⟩ := List.exists_cons_of_ne_nil some
  obtain ⟨-, eq⟩ := List.cons.inj eq
  cases z with
  | nil =>
    cases w' with
    | nil => exact absurd (List.cons.inj eq).1 (by decide)
    | cons x w' =>
      obtain ⟨rfl, -⟩ := List.cons.inj eq
      exact absurd takes not_slash_of_tail
  | cons y' z =>
    obtain ⟨-, rfl⟩ := List.cons.inj eq
    refine ⟨z ++ (w' ++ lit "*/"), by simp [List.append_assoc], ?_⟩
    have last : (47 : UInt8) ∈ lit "*/" := by decide
    simp [last]

theorem tail_overrun {q : GoString} (nodup : kinds.Nodup)
    (ordered : (parts.map (·.1.kind)).Sublist kinds) (blank : gap.all space = true)
    (laid : Laid parts) (opened : OpenFile parts) (runsOn : Overruns kinds q)
    (before : Option UInt8) (groups : List (Nat × GoString)) :
    ∃ m x, (hintTail kinds).matchFrom ⟨before, gap ++ (hintsText parts ++ (lit "*/" ++ q)), groups⟩
      some =
      some m ∧ q = x ++ m.input ∧ 47 ∈ x := by
  induction kinds generalizing parts gap before groups with
  | nil => exact absurd (opened.mem ordered) (by simp)
  | cons kind kinds ih =>
    obtain ⟨b, skipped⟩ := tail_blanks ordered blank laid.gaps q before groups
    have rest := (List.nodup_cons.mp nodup).2
    rw [skipped]
    rcases head_cases q nodup ordered with ⟨p, parts, rfl, rfl, later⟩ | ⟨later, other⟩
    · by_cases last : parts = []
      · subst last
        obtain ⟨p', same, file, closed⟩ := opened
        obtain rfl : p = p' := by simpa using same
        obtain ⟨u₀, w₀, t₀, text, some₀, words, takes₀⟩ := runsOn
        rw [afterFile, if_pos file] at takes₀
        -- the greedy run takes at least `u₀`, and with it the end of the comment
        have taken : ∀ b ∈ u₀, p.1.kind.takes b = true := by
          intro b mem
          rw [file]
          simp [HintKind.takes, words b mem]
        have done (before : Option UInt8) (groups : List (Nat × GoString)) :
            ((hintTail kinds).matchFrom ⟨before, w₀ ++ t₀, groups⟩ some).isSome = true :=
          (hintTail kinds).matchFrom_isSome (plain_tail kinds) takes₀ rfl fun _ _ => rfl
        obtain ⟨b', u, v, split, -, eq, found⟩ := tail_take p.1 taken done b groups
        obtain ⟨m, read⟩ := Option.isSome_iff_exists.mp found
        obtain ⟨w, d, input, takes, same⟩ := (hintTail kinds).takes_of_matchFrom read
        obtain rfl : d = m := Option.some.inj same
        obtain rfl : v = w ++ d.input := input
        have cut : lit "*/" ++ q = (u₀ ++ u) ++ (w ++ d.input) := by
          rw [text, split, List.append_assoc]
        obtain ⟨x, lost, slash⟩ := slash_lost cut (by simp [some₀]) takes
        have input : hintsText [p] ++ (lit "*/" ++ q) =
            p.1.kind.key ++ (p.1.value ++ (u₀ ++ (w₀ ++ t₀))) := by
          rw [hintsText_cons, closed, ← text]
          rfl
        rw [input]
        exact ⟨d, x, eq.trans read, lost, slash⟩
      · have done := tail_isSome later (laid.gaps p (by simp)) laid.tail.gaps q
        obtain ⟨b', u, v, split, each, eq, -⟩ :=
          tail_take p.1 (List.forall_mem_nil _) done b groups
        obtain rfl : u = [] := (value_ends laid split each).resolve_right fun ends => last ends.1
        obtain rfl : p.2 ++ (hintsText parts ++ (lit "*/" ++ q)) = v := split
        have opened' : OpenFile parts := by
          obtain ⟨p', parts', rfl⟩ := List.exists_cons_of_ne_nil last
          simpa [OpenFile] using opened
        obtain ⟨m, x, found, lost⟩ := ih rest later (laid.gaps p (by simp)) laid.tail opened'
          ((overruns_cons nodup (opened'.mem later) q).mp runsOn) b'
          ((p.1.kind.outer, p.1.text) :: (p.1.kind.inner, p.1.value) :: groups)
        rw [List.nil_append, List.append_nil, List.append_nil, ← hintsText_cons] at eq
        exact ⟨m, x, eq.trans found, lost⟩
    · rw [matchFrom_skip other]
      exact ih rest later (show ([] : GoString).all space = true from rfl) laid opened
        ((overruns_cons nodup (opened.mem later) q).mp runsOn) b groups

end Ordered

theorem find_captured {parts : List (Hint × GoString)} (once : (parts.map (·.1.kind)).Nodup)
    (kind : HintKind) (groups : List (Nat × GoString)) :
    (captured parts groups).find? (·.1 == kind.inner) =
      ((parts.find? (·.1.kind == kind)).map fun p => (kind.inner, p.1.value)).or
        (groups.find? (·.1 == kind.inner)) := by
  induction parts generalizing groups with
  | nil => rfl
  | cons p parts ih =>
    rw [List.map_cons, List.nodup_cons] at once
    obtain ⟨fresh, rest⟩ := once
    have apart : (p.1.kind.outer == kind.inner) = false := by
      cases p.1.kind <;> cases kind <;> decide
    rw [captured, ih rest, List.find?_cons_of_neg (by simpa using apart)]
    by_cases same : p.1.kind = kind
    · have none : parts.find? (·.1.kind == kind) = none := List.find?_eq_none.mpr fun p' mem eq =>
        fresh (List.mem_map.mpr ⟨p', mem, (beq_iff_eq.mp eq).trans same.symm⟩)
      rw [none, List.find?_cons_of_pos (by simp [same]), List.find?_cons_of_pos (by simp [same]),
        same]
      rfl
    · have other : (p.1.kind.inner == kind.inner) = false := by
        revert same
        cases p.1.kind <;> cases kind <;> decide
      rw [List.find?_cons_of_neg (by simpa using other), List.find?_cons_of_neg (by simp [same])]

theorem submatch_captured (c : HintComment) (kind : HintKind) (before : Option UInt8)
    (q : GoString) :
    (Cursor.mk before q (captured c.parts [])).submatch kind.inner = c.value kind := by
  rw [Cursor.submatch, HintComment.value, find_captured c.once]
  cases c.parts.find? (·.1.kind == kind) <;> rfl

theorem text_append (c : HintComment) (q : GoString) :
    c.text ++ q = lit "/*" ++ (c.lead ++ (hintsText c.parts ++ (lit "*/" ++ q))) := by
  simp [HintComment.text, List.append_assoc]

theorem matchFrom_comment (c : HintComment) (q : GoString) :
    ∃ b, hintRegex.matchFrom ⟨none, c.text ++ q, []⟩ some = (hintTail parserOrder).matchFrom
      ⟨b, c.lead ++ (hintsText c.parts ++ (lit "*/" ++ q)), []⟩ some := by
  rw [text_append, hintRegex_eq]
  exact matchFrom_text (lit "/*") _ none [] fun d => (hintTail parserOrder).matchFrom d some

theorem find_of_match {s : GoString} {m : Cursor UInt8}
    (found : hintRegex.matchFrom ⟨none, s, []⟩ some = some m) : hintRegex.find none s = some m := by
  cases s with
  | nil => exact found
  | cons x s => rw [Re.find, found]

end TQDBProxy.Parser
