import TQDBProxy.Regex

/-! What a search takes and what it sees. A match consumes a text of the expression, and an
expression without word boundaries finds a match wherever the text has one. A symbol that
an expression neither takes nor counts as part of a word stops every match. -/

namespace TQDBProxy.Regex

variable {α : Type}

def Re.Takes : Re α → List α → Prop
  | .empty, w => w = []
  | .one test, w => ∃ x, w = [x] ∧ test x = true
  | .seq a b, w => ∃ u v, w = u ++ v ∧ a.Takes u ∧ b.Takes v
  | .alt a b, w => a.Takes w ∨ b.Takes w
  | .star a, w => ∃ us : List (List α), w = us.flatten ∧ ∀ u ∈ us, a.Takes u
  | .group _ a, w => a.Takes w
  | .boundary _, w => w = []

theorem takes_text [BEq α] [LawfulBEq α] (l w : List α) : (Re.text l).Takes w ↔ w = l := by
  induction l generalizing w with
  | nil => exact Iff.rfl
  | cons x l ih =>
    constructor
    · rintro ⟨u, v, rfl, ⟨y, rfl, same⟩, rest⟩
      rw [beq_iff_eq.mp same, (ih v).mp rest]
      rfl
    · rintro rfl
      exact ⟨[x], l, rfl, ⟨x, rfl, beq_self_eq_true x⟩, (ih l).mpr rfl⟩

theorem takes_star_one (test : α → Bool) (w : List α) :
    (Re.star (.one test)).Takes w ↔ ∀ x ∈ w, test x = true := by
  constructor
  · rintro ⟨us, rfl, each⟩ x mem
    obtain ⟨u, found, inside⟩ := List.mem_flatten.mp mem
    obtain ⟨y, rfl, ok⟩ := each u found
    rw [List.mem_singleton.mp inside]
    exact ok
  · intro all
    refine ⟨w.map fun x => [x], ?_, fun u mem => ?_⟩
    · rw [← List.flatMap_def, List.flatMap_singleton']
    · obtain ⟨x, found, rfl⟩ := List.mem_map.mp mem
      exact ⟨x, rfl, all x found⟩

theorem takes_plus_one (test : α → Bool) (w : List α) :
    (Re.plus (.one test)).Takes w ↔ w ≠ [] ∧ ∀ x ∈ w, test x = true := by
  constructor
  · rintro ⟨u, v, rfl, ⟨x, rfl, ok⟩, rest⟩
    exact ⟨by simp, by simpa using ⟨ok, (takes_star_one test v).mp rest⟩⟩
  · rintro ⟨some, all⟩
    cases w with
    | nil => exact absurd rfl some
    | cons x w =>
      obtain ⟨ok, rest⟩ := List.forall_mem_cons.mp all
      exact ⟨[x], w, rfl, ⟨x, rfl, ok⟩, (takes_star_one test w).mpr rest⟩

/-- The texts of an expression with the groups that are closed on the way, the last one first. -/
def Re.Captures : Re α → List α → List (Nat × List α) → Prop
  | .empty, w, groups => w = [] ∧ groups = []
  | .one test, w, groups => groups = [] ∧ ∃ x, w = [x] ∧ test x = true
  | .seq a b, w, groups => ∃ u v before after, w = u ++ v ∧ groups = after ++ before ∧
      a.Captures u before ∧ b.Captures v after
  | .alt a b, w, groups => a.Captures w groups ∨ b.Captures w groups
  | .star a, w, groups => ∃ rounds : List (List α × List (Nat × List α)),
      w = (rounds.map Prod.fst).flatten ∧ groups = (rounds.reverse.map Prod.snd).flatten ∧
        ∀ round ∈ rounds, a.Captures round.1 round.2
  | .group n a, w, groups => ∃ inner, groups = (n, w) :: inner ∧ a.Captures w inner
  | .boundary _, w, groups => w = [] ∧ groups = []

theorem Re.Captures.takes {r : Re α} {w : List α} {groups : List (Nat × List α)}
    (captures : r.Captures w groups) : r.Takes w := by
  induction r generalizing w groups with
  | empty => exact captures.1
  | one test => exact captures.2
  | seq a b first second =>
    obtain ⟨u, v, before, after, rfl, -, left, right⟩ := captures
    exact ⟨u, v, rfl, first left, second right⟩
  | alt a b left right => exact captures.imp left right
  | star a each =>
    obtain ⟨rounds, rfl, -, all⟩ := captures
    refine ⟨rounds.map Prod.fst, rfl, fun u mem => ?_⟩
    obtain ⟨round, found, rfl⟩ := List.mem_map.mp mem
    exact each (all round found)
  | group n a inside =>
    obtain ⟨inner, -, captures⟩ := captures
    exact inside captures
  | boundary word => exact captures.1

theorem captures_of_repeated {a : Re α}
    (sound : ∀ {c k m}, a.matchFrom c k = some m →
      ∃ w groups d, c.input = w ++ d.input ∧ d.groups = groups ++ c.groups ∧ a.Captures w groups ∧
        k d = some m)
    (fuel : Nat) {c m : Cursor α} {k : Cursor α → Option (Cursor α)}
    (found : repeated a.matchFrom fuel c k = some m) :
    ∃ w groups d, c.input = w ++ d.input ∧ d.groups = groups ++ c.groups ∧
      (Re.star a).Captures w groups ∧
      k d = some m := by
  induction fuel generalizing c with
  | zero => exact ⟨[], [], c, rfl, rfl, ⟨[], rfl, rfl, by simp⟩, found⟩
  | succ fuel ih =>
    rw [repeated] at found
    split at found
    · rename_i m' round
      obtain rfl : m' = m := Option.some.inj found
      obtain ⟨w, groups, d, input, closed, captures, more⟩ := sound round
      split at more
      · obtain ⟨w', groups', e, rest, later, ⟨rounds, rfl, rfl, each⟩, done⟩ := ih more
        refine ⟨w ++ _, _ ++ groups, e, by rw [input, rest, List.append_assoc],
          by rw [later, closed, List.append_assoc], ⟨(w, groups) :: rounds, rfl, ?_, ?_⟩, done⟩
        · simp
        · exact List.forall_mem_cons.mpr ⟨captures, each⟩
      · cases more
    · exact ⟨[], [], c, rfl, rfl, ⟨[], rfl, rfl, by simp⟩, found⟩

theorem Re.captures_of_matchFrom (r : Re α) {c m : Cursor α} {k : Cursor α → Option (Cursor α)}
    (found : r.matchFrom c k = some m) :
    ∃ w groups d, c.input = w ++ d.input ∧ d.groups = groups ++ c.groups ∧ r.Captures w groups ∧
      k d = some m := by
  induction r generalizing c k m with
  | empty => exact ⟨[], [], c, rfl, rfl, ⟨rfl, rfl⟩, found⟩
  | one test =>
    rw [Re.matchFrom] at found
    split at found
    · cases found
    · rename_i x rest input
      split at found
      · rename_i ok
        exact ⟨[x], [], ⟨some x, rest, c.groups⟩, input, rfl, ⟨rfl, x, rfl, ok⟩, found⟩
      · cases found
  | seq a b first second =>
    obtain ⟨u, before, d, input, closed, left, more⟩ := first found
    obtain ⟨v, after, e, input', closed', right, done⟩ := second more
    exact ⟨u ++ v, after ++ before, e, by rw [input, input', List.append_assoc],
      by rw [closed', closed, List.append_assoc], ⟨u, v, before, after, rfl, rfl, left, right⟩,
        done⟩
  | alt a b left right =>
    rw [Re.matchFrom] at found
    split at found
    · rename_i m' first
      obtain rfl : m' = m := Option.some.inj found
      obtain ⟨w, groups, d, input, closed, captures, done⟩ := left first
      exact ⟨w, groups, d, input, closed, .inl captures, done⟩
    · obtain ⟨w, groups, d, input, closed, captures, done⟩ := right found
      exact ⟨w, groups, d, input, closed, .inr captures, done⟩
  | star a sound => exact captures_of_repeated sound _ found
  | group n a sound =>
    obtain ⟨w, inner, d, input, closed, captures, done⟩ := sound found
    have text : c.input.take (c.input.length - d.input.length) = w := by
      rw [input]
      simp
    rw [text] at done
    exact ⟨w, (n, w) :: inner, ⟨d.before, d.input, (n, w) :: d.groups⟩, input,
      by rw [closed, List.cons_append], ⟨inner, rfl, captures⟩, done⟩
  | boundary word =>
    rw [Re.matchFrom] at found
    split at found
    · exact ⟨[], [], c, rfl, rfl, ⟨rfl, rfl⟩, found⟩
    · cases found

theorem Re.takes_of_matchFrom (r : Re α) {c m : Cursor α} {k : Cursor α → Option (Cursor α)}
    (found : r.matchFrom c k = some m) :
    ∃ w d, c.input = w ++ d.input ∧ r.Takes w ∧ k d = some m := by
  obtain ⟨w, groups, d, input, -, captures, done⟩ := r.captures_of_matchFrom found
  exact ⟨w, d, input, captures.takes, done⟩

theorem Re.match_of_find (r : Re α) {before : Option α} {s : List α} {m : Cursor α}
    (found : r.find before s = some m) :
    ∃ front back, s = front ++ back ∧
      r.matchFrom ⟨(front.getLast?).or before, back, []⟩ some = some m := by
  induction s generalizing before with
  | nil => exact ⟨[], [], rfl, found⟩
  | cons x rest ih =>
    rw [Re.find] at found
    split at found
    · rename_i m' here
      obtain rfl : m' = m := Option.some.inj found
      exact ⟨[], x :: rest, rfl, here⟩
    · obtain ⟨front, back, rfl, later⟩ := ih found
      refine ⟨x :: front, back, rfl, ?_⟩
      have last : ((x :: front).getLast?).or before = (front.getLast?).or (some x) := by
        cases front with
        | nil => rfl
        | cons y front =>
          rw [List.getLast?_cons_cons, List.getLast?_eq_some_getLast (List.cons_ne_nil y front)]
          rfl
      rwa [last]

def Re.bodies (n : Nat) : Re α → List (Re α)
  | .seq a b | .alt a b => a.bodies n ++ b.bodies n
  | .star a => a.bodies n
  | .group k a => if k = n then a :: a.bodies n else a.bodies n
  | .empty | .one _ | .boundary _ => []

theorem Re.Captures.mem {r : Re α} {w : List α} {groups : List (Nat × List α)}
    (captures : r.Captures w groups) {n : Nat} {text : List α} (mem : (n, text) ∈ groups) :
      ∃ a ∈ r.bodies n, a.Takes text := by
  induction r generalizing w groups with
  | empty | boundary _ =>
    obtain ⟨-, rfl⟩ := captures
    cases mem
  | one test =>
    obtain ⟨rfl, -⟩ := captures
    cases mem
  | seq a b first second =>
    obtain ⟨u, v, before, after, -, rfl, left, right⟩ := captures
    rcases List.mem_append.mp mem with here | here
    · obtain ⟨e, inside, takes⟩ := second right here
      exact ⟨e, List.mem_append_right _ inside, takes⟩
    · obtain ⟨e, inside, takes⟩ := first left here
      exact ⟨e, List.mem_append_left _ inside, takes⟩
  | alt a b first second =>
    rcases captures with captures | captures
    · obtain ⟨e, inside, takes⟩ := first captures mem
      exact ⟨e, List.mem_append_left _ inside, takes⟩
    · obtain ⟨e, inside, takes⟩ := second captures mem
      exact ⟨e, List.mem_append_right _ inside, takes⟩
  | star a each =>
    obtain ⟨rounds, -, rfl, all⟩ := captures
    obtain ⟨inner, found, here⟩ := List.mem_flatten.mp mem
    obtain ⟨round, listed, rfl⟩ := List.mem_map.mp found
    exact each (all round (List.mem_reverse.mp listed)) here
  | group k a inside =>
    obtain ⟨inner, rfl, captures⟩ := captures
    rw [Re.bodies]
    rcases List.mem_cons.mp mem with here | later
    · obtain ⟨rfl, rfl⟩ := Prod.mk.inj here
      rw [if_pos rfl]
      exact ⟨a, List.mem_cons_self, captures.takes⟩
    · obtain ⟨e, found, takes⟩ := inside captures later
      refine ⟨e, ?_, takes⟩
      split
      · exact List.mem_cons_of_mem _ found
      · exact found

theorem Re.Captures.uncons {r : Re α} {rs : List (Re α)} {w : List α} {groups : List (Nat × List α)}
    (captures : (Re.all (r :: rs)).Captures w groups) :
    ∃ u v before after, w = u ++ v ∧ groups = after ++ before ∧ r.Captures u before ∧
      (Re.all rs).Captures v after :=
  captures

theorem Re.Captures.nil {r : Re α} {w : List α} {groups : List (Nat × List α)}
    (captures : r.Captures w groups) (free : ∀ n, r.bodies n = []) : groups = [] := by
  cases groups with
  | nil => rfl
  | cons g groups =>
    obtain ⟨a, inside, -⟩ := captures.mem (n := g.1) (List.mem_cons_self (a := g))
    rw [free] at inside
    cases inside

theorem Re.submatch_of_find (r : Re α) {before : Option α} {s : List α} {m : Cursor α}
    (found : r.find before s = some m) (n : Nat) :
    m.submatch n = [] ∨ ∃ a ∈ r.bodies n, a.Takes (m.submatch n) := by
  obtain ⟨front, back, -, here⟩ := r.match_of_find found
  obtain ⟨w, groups, d, -, closed, captures, done⟩ := r.captures_of_matchFrom here
  obtain rfl := Option.some.inj done
  rw [List.append_nil] at closed
  rw [Cursor.submatch, closed]
  cases named : groups.find? (·.1 == n) with
  | none => exact .inl rfl
  | some p =>
    obtain ⟨k, text⟩ := p
    have same : k = n := by simpa using List.find?_some named
    subst same
    exact .inr (captures.mem (List.mem_of_find?_eq_some named))

def Re.plain : Re α → Bool
  | .empty | .one _ => true
  | .seq a b | .alt a b => a.plain && b.plain
  | .star a | .group _ a => a.plain
  | .boundary _ => false

theorem repeated_isSome {a : Re α}
    (complete : ∀ {w rest : List α} {c : Cursor α} {k}, a.Takes w → c.input = w ++ rest →
      (∀ d, d.input = rest → (k d).isSome = true) → (a.matchFrom c k).isSome = true)
    {us : List (List α)} {rest : List α} {k : Cursor α → Option (Cursor α)}
    (each : ∀ u ∈ us, a.Takes u) (done : ∀ d, d.input = rest → (k d).isSome = true)
    (fuel : Nat) {c : Cursor α} (input : c.input = us.flatten ++ rest)
    (enough : c.input.length ≤ fuel) : (repeated a.matchFrom fuel c k).isSome = true := by
  induction us generalizing fuel c with
  | nil =>
    cases fuel with
    | zero => exact done c input
    | succ fuel =>
      rw [repeated]
      split
      · rfl
      · exact done c input
  | cons u us ih =>
    obtain ⟨takes, others⟩ := List.forall_mem_cons.mp each
    rw [List.flatten_cons, List.append_assoc] at input
    cases u with
    | nil => exact ih others fuel input enough
    | cons x u =>
      cases fuel with
      | zero =>
        rw [input] at enough
        simp at enough
      | succ fuel =>
        rw [repeated]
        split
        · rfl
        · rename_i failed
          have round := complete takes input
            (k := fun d => if d.input.length < c.input.length
              then repeated a.matchFrom fuel d k else none) fun d same => by
              have shorter : d.input.length < c.input.length := by
                rw [same, input]
                simp only [List.cons_append, List.length_cons, List.length_append]
                omega
              rw [if_pos shorter]
              exact ih others fuel same (by omega)
          rw [failed] at round
          cases round

theorem Re.matchFrom_isSome (r : Re α) (plain : r.plain = true) {w rest : List α} {c : Cursor α}
    {k : Cursor α → Option (Cursor α)} (takes : r.Takes w) (input : c.input = w ++ rest)
    (done : ∀ d, d.input = rest → (k d).isSome = true) : (r.matchFrom c k).isSome = true := by
  induction r generalizing w rest c k with
  | empty =>
    obtain rfl : w = [] := takes
    exact done c input
  | one test =>
    obtain ⟨x, rfl, ok⟩ := takes
    rw [Re.matchFrom, input]
    simp only [List.cons_append, List.nil_append, ok, if_true]
    exact done _ rfl
  | seq a b first second =>
    obtain ⟨left, right⟩ := Bool.and_eq_true_iff.mp plain
    obtain ⟨u, v, rfl, takes, takes'⟩ := takes
    rw [List.append_assoc] at input
    exact first left takes input fun d same => second right takes' same done
  | alt a b left right =>
    obtain ⟨plainLeft, plainRight⟩ := Bool.and_eq_true_iff.mp plain
    rw [Re.matchFrom]
    split
    · rfl
    · rename_i failed
      rcases takes with takes | takes
      · have found := left plainLeft takes input done
        rw [failed] at found
        cases found
      · exact right plainRight takes input done
  | star a complete =>
    obtain ⟨us, rfl, each⟩ := takes
    exact repeated_isSome (complete plain) each done _ input (Nat.le_refl _)
  | group n a complete => exact complete plain takes input fun d same => done _ same
  | boundary word => cases plain

theorem matchFrom_star_one (test : α → Bool) (before : Option α) (x : α) (rest : List α)
    (groups : List (Nat × List α)) (k : Cursor α → Option (Cursor α)) :
    (Re.star (.one test)).matchFrom ⟨before, x :: rest, groups⟩ k =
      if test x then
        ((Re.star (.one test)).matchFrom ⟨some x, rest, groups⟩ k).or
          (k ⟨before, x :: rest, groups⟩)
      else k ⟨before, x :: rest, groups⟩ := by
  simp only [Re.matchFrom, List.length_cons, repeated]
  cases ok : test x with
  | false => rfl
  | true =>
    simp only [if_true, Nat.lt_add_one]
    split
    · rename_i found
      rw [found]
      rfl
    · rename_i failed
      rw [failed]
      rfl

theorem matchFrom_star_longest {test : α → Bool} {w rest : List α} (all : ∀ x ∈ w, test x = true)
    (before : Option α) {groups : List (Nat × List α)} {k : Cursor α → Option (Cursor α)}
    (done : ∀ b, (k ⟨b, rest, groups⟩).isSome = true) :
    ∃ b u v, rest = u ++ v ∧ (∀ x ∈ u, test x = true) ∧ (k ⟨b, v, groups⟩).isSome = true ∧
      (Re.star (.one test)).matchFrom ⟨before, w ++ rest, groups⟩ k = k ⟨b, v, groups⟩ := by
  have run (b : Option α) (s : List α) :
      (∃ b' u v, s = u ++ v ∧ (∀ x ∈ u, test x = true) ∧ (k ⟨b', v, groups⟩).isSome = true ∧
        (Re.star (.one test)).matchFrom ⟨b, s, groups⟩ k = k ⟨b', v, groups⟩) ∨
      (Re.star (.one test)).matchFrom ⟨b, s, groups⟩ k = none ∧ k ⟨b, s, groups⟩ = none := by
    induction s generalizing b with
    | nil =>
      cases here : k ⟨b, [], groups⟩ with
      | none => exact .inr ⟨here, rfl⟩
      | some m => exact .inl ⟨b, [], [], rfl, by simp, by rw [here]; rfl, rfl⟩
    | cons x s ih =>
      rw [matchFrom_star_one]
      split
      · rename_i ok
        rcases ih (some x) with ⟨b', u, v, rfl, each, found, eq⟩ | ⟨failed, -⟩
        · refine .inl ⟨b', x :: u, v, rfl, List.forall_mem_cons.mpr ⟨ok, each⟩, found, ?_⟩
          rw [eq, Option.or_of_isSome found]
        · rw [failed, Option.none_or]
          cases here : k ⟨b, x :: s, groups⟩ with
          | none => exact .inr ⟨rfl, rfl⟩
          | some m => exact .inl ⟨b, [], x :: s, rfl, by simp, by rw [here]; rfl, here.symm⟩
      · cases here : k ⟨b, x :: s, groups⟩ with
        | none => exact .inr ⟨rfl, rfl⟩
        | some m => exact .inl ⟨b, [], x :: s, rfl, by simp, by rw [here]; rfl, here.symm⟩
  induction w generalizing before with
  | nil =>
    rcases run before rest with found | ⟨-, failed⟩
    · exact found
    · have some := done before
      rw [failed] at some
      cases some
  | cons x w ih =>
    obtain ⟨ok, each⟩ := List.forall_mem_cons.mp all
    obtain ⟨b, u, v, eq, taken, found, same⟩ := ih each (some x)
    refine ⟨b, u, v, eq, taken, found, ?_⟩
    rw [List.cons_append, matchFrom_star_one, if_pos ok, same, Option.or_of_isSome found]

theorem matchFrom_star_run {test : α → Bool} {w rest : List α} (all : ∀ x ∈ w, test x = true)
    (ends : ∀ x ∈ rest.head?, test x = false) (before : Option α) {groups : List (Nat × List α)}
    {k : Cursor α → Option (Cursor α)} (done : ∀ b, (k ⟨b, rest, groups⟩).isSome = true) :
    ∃ b, (Re.star (.one test)).matchFrom ⟨before, w ++ rest, groups⟩ k = k ⟨b, rest, groups⟩ := by
  obtain ⟨b, u, v, eq, each, -, same⟩ := matchFrom_star_longest all before done
  cases u with
  | nil =>
    obtain rfl : rest = v := eq
    exact ⟨b, same⟩
  | cons x u =>
    have fails := ends x (by rw [eq]; rfl)
    rw [each x (by simp)] at fails
    cases fails

theorem matchFrom_text [BEq α] [LawfulBEq α] (l s : List α) (before : Option α)
    (groups : List (Nat × List α)) (k : Cursor α → Option (Cursor α)) :
    ∃ b, (Re.text l).matchFrom ⟨before, l ++ s, groups⟩ k = k ⟨b, s, groups⟩ := by
  induction l generalizing before with
  | nil => exact ⟨before, rfl⟩
  | cons x l ih =>
    obtain ⟨b, eq⟩ := ih (some x)
    refine ⟨b, Eq.trans ?_ eq⟩
    simp only [Re.text, List.foldr_cons, Re.matchFrom, List.cons_append, beq_self_eq_true, if_true]

theorem matchFrom_text_none [BEq α] [LawfulBEq α] {x : α} (l : List α) {s : List α}
    (other : s.head? ≠ some x) (before : Option α) (groups : List (Nat × List α))
    (k : Cursor α → Option (Cursor α)) :
    (Re.text (x :: l)).matchFrom ⟨before, s, groups⟩ k = none := by
  cases s with
  | nil => rfl
  | cons y s =>
    have differs : (y == x) = false := by
      rw [beq_eq_false_iff_ne]
      rintro rfl
      exact other rfl
    simp only [Re.text, List.foldr_cons, Re.matchFrom, differs, Bool.false_eq_true, if_false]

def Cursor.view (c : Cursor α) : List α × List (Nat × List α) := (c.input, c.groups)

/-- Whatever an expression asks of the symbol before has one answer for both. -/
def Re.blind (b b' : Option α) : Re α → Bool
  | .empty | .one _ => true
  | .seq r s | .alt r s => r.blind b b' && s.blind b b'
  | .star r | .group _ r => r.blind b b'
  | .boundary word => b.any word == b'.any word

theorem Re.blind_of_plain (r : Re α) (plain : r.plain = true) (b b' : Option α) :
    r.blind b b' = true := by
  induction r with
  | empty | one => rfl
  | seq r s left right | alt r s left right =>
    obtain ⟨plainLeft, plainRight⟩ := Bool.and_eq_true_iff.mp plain
    exact Bool.and_eq_true_iff.mpr ⟨left plainLeft, right plainRight⟩
  | star r ih | group _ r ih => exact ih plain
  | boundary word => cases plain

/-- Cursors that differ at most in the symbol before the start. -/
def Alike (b b' : Option α) (c d : Cursor α) : Prop :=
  c.view = d.view ∧ (c.before = d.before ∨ c.before = b ∧ d.before = b')

theorem Alike.input {b b' : Option α} {c d : Cursor α} (alike : Alike b b' c d) :
    c.input = d.input := congrArg Prod.fst alike.1

theorem Alike.groups {b b' : Option α} {c d : Cursor α} (alike : Alike b b' c d) :
    c.groups = d.groups := congrArg Prod.snd alike.1

theorem view_first {x y x' y' : Option (Cursor α)} (one : x.map Cursor.view = y.map Cursor.view)
    (two : x'.map Cursor.view = y'.map Cursor.view) :
    (match x with | some found => some found | none => x').map Cursor.view =
      (match y with | some found => some found | none => y').map Cursor.view := by
  cases x with
  | some m =>
    cases y with
    | some m' => exact one
    | none => cases one
  | none =>
    cases y with
    | some m' => cases one
    | none => exact two

theorem repeated_alike {b b' : Option α} {r : Re α}
    (same : ∀ {c d : Cursor α} {k k' : Cursor α → Option (Cursor α)}, Alike b b' c d →
      (∀ c d, Alike b b' c d → (k c).map Cursor.view = (k' d).map Cursor.view) →
      (r.matchFrom c k).map Cursor.view = (r.matchFrom d k').map Cursor.view)
    {k k' : Cursor α → Option (Cursor α)}
    (next : ∀ c d, Alike b b' c d → (k c).map Cursor.view = (k' d).map Cursor.view)
    (fuel : Nat) {c d : Cursor α} (alike : Alike b b' c d) :
    (repeated r.matchFrom fuel c k).map Cursor.view =
      (repeated r.matchFrom fuel d k').map Cursor.view := by
  induction fuel generalizing c d with
  | zero => exact next c d alike
  | succ fuel ih =>
    rw [repeated, repeated]
    refine view_first (same alike fun e e' alike' => ?_) (next c d alike)
    rw [alike'.input, alike.input]
    split
    · exact ih alike'
    · rfl

theorem Re.matchFrom_alike {b b' : Option α} (r : Re α) (blind : r.blind b b' = true)
    {c d : Cursor α} {k k' : Cursor α → Option (Cursor α)} (alike : Alike b b' c d)
    (next : ∀ c d, Alike b b' c d → (k c).map Cursor.view = (k' d).map Cursor.view) :
    (r.matchFrom c k).map Cursor.view = (r.matchFrom d k').map Cursor.view := by
  induction r generalizing c d k k' with
  | empty => exact next c d alike
  | one test =>
    simp only [Re.matchFrom, alike.input]
    split
    · rfl
    · split
      · exact next _ _ ⟨by simp [Cursor.view, alike.groups], .inl rfl⟩
      · rfl
  | seq r s first second =>
    obtain ⟨left, right⟩ := Bool.and_eq_true_iff.mp blind
    exact first left alike fun c d alike => second right alike next
  | alt r s left right =>
    obtain ⟨blindLeft, blindRight⟩ := Bool.and_eq_true_iff.mp blind
    rw [Re.matchFrom, Re.matchFrom]
    exact view_first (left blindLeft alike next) (right blindRight alike next)
  | star r ih =>
    rw [Re.matchFrom, Re.matchFrom, alike.input]
    exact repeated_alike (ih blind) next _ alike
  | group n r ih =>
    refine ih blind alike fun e e' alike' => next _ _ ⟨?_, alike'.2⟩
    simp [Cursor.view, alike'.input, alike'.groups, alike.input]
  | boundary word =>
    have agree : c.before.any word = d.before.any word := by
      rcases alike.2 with eq | ⟨rfl, rfl⟩
      · rw [eq]
      · exact beq_iff_eq.mp blind
    have same : c.atBoundary word = d.atBoundary word := by
      rw [Cursor.atBoundary, Cursor.atBoundary, agree, alike.input]
    rw [Re.matchFrom, Re.matchFrom, same]
    split
    · exact next c d alike
    · rfl

theorem Re.matchFrom_before {b b' : Option α} (r : Re α) (blind : r.blind b b' = true)
    (input : List α) (groups : List (Nat × List α)) :
    (r.matchFrom ⟨b, input, groups⟩ some).map Cursor.view =
      (r.matchFrom ⟨b', input, groups⟩ some).map Cursor.view :=
  r.matchFrom_alike blind ⟨rfl, .inr ⟨rfl, rfl⟩⟩ fun _ _ alike => congrArg some alike.1

theorem Re.find_before {b b' : Option α} (r : Re α) (blind : r.blind b b' = true) (s : List α) :
    (r.find b s).map Cursor.view = (r.find b' s).map Cursor.view := by
  have here := r.matchFrom_before blind s []
  cases s with
  | nil => exact here
  | cons x rest =>
    rw [Re.find, Re.find]
    exact view_first here rfl

/-- An expression of bounded texts that neither takes the symbol nor counts it as part of a
word. -/
def Re.stops (c : α) : Re α → Bool
  | .empty => true
  | .one test => !test c
  | .seq a b | .alt a b => a.stops c && b.stops c
  | .star _ => false
  | .group _ a => a.stops c
  | .boundary word => !word c

def Cursor.extend (more : List α) (c : Cursor α) : Cursor α := { c with input := c.input ++ more }

theorem taken_append (more s t : List α) :
    (s ++ more).take ((s ++ more).length - (t ++ more).length) =
      s.take (s.length - t.length) := by
  rw [List.length_append, List.length_append, Nat.add_sub_add_right]
  exact List.take_append_of_le_length (by omega)

theorem Re.matchFrom_stop {x : α} {more : List α} (r : Re α) (stops : r.stops x = true)
    {c : Cursor α} {k k' : Cursor α → Option (Cursor α)}
    (next : ∀ d, k (d.extend (x :: more)) = (k' d).map (Cursor.extend (x :: more))) :
    r.matchFrom (c.extend (x :: more)) k = (r.matchFrom c k').map (Cursor.extend (x :: more)) := by
  induction r generalizing c k k' with
  | empty => exact next c
  | one test =>
    rw [Re.matchFrom, Re.matchFrom]
    obtain ⟨before, input, groups⟩ := c
    cases input with
    | nil =>
      have other : test x = false := by simpa [Re.stops] using stops
      simp [Cursor.extend, other]
    | cons y rest =>
      simp only [Cursor.extend, List.cons_append]
      split
      · exact next ⟨some y, rest, groups⟩
      · rfl
  | seq a b first second =>
    obtain ⟨left, right⟩ := Bool.and_eq_true_iff.mp stops
    exact first left fun d => second right next
  | alt a b left right =>
    obtain ⟨stopsLeft, stopsRight⟩ := Bool.and_eq_true_iff.mp stops
    rw [Re.matchFrom, Re.matchFrom, left stopsLeft next]
    cases a.matchFrom c k' with
    | some m => rfl
    | none => exact right stopsRight next
  | star a => cases stops
  | group n a ih =>
    refine ih stops fun d => ?_
    simp only [Cursor.extend, taken_append]
    exact next { d with groups := (n, c.input.take (c.input.length - d.input.length)) :: d.groups }
  | boundary word =>
    have other : word x = false := by simpa [Re.stops] using stops
    have same : (c.extend (x :: more)).atBoundary word = c.atBoundary word := by
      obtain ⟨before, input, groups⟩ := c
      cases input with
      | nil => simp [Cursor.atBoundary, Cursor.extend, other]
      | cons y rest => rfl
    rw [Re.matchFrom, Re.matchFrom, same]
    split
    · exact next c
    · rfl

theorem Re.find_stop (r : Re α) {x : α} (stops : r.stops x = true) (before : Option α)
    (s more : List α) :
    r.find before (s ++ x :: more) =
      ((r.find before s).map (Cursor.extend (x :: more))).or (r.find (some x) more) := by
  have here (b : Option α) (s : List α) : r.matchFrom ⟨b, s ++ x :: more, []⟩ some =
      (r.matchFrom ⟨b, s, []⟩ some).map (Cursor.extend (x :: more)) :=
    r.matchFrom_stop stops (c := ⟨b, s, []⟩) fun _ => rfl
  induction s generalizing before with
  | nil =>
    have first := here before []
    rw [List.nil_append] at first ⊢
    rw [Re.find, Re.find, first]
    cases r.matchFrom ⟨before, [], []⟩ some <;> rfl
  | cons y s ih =>
    have first := here before (y :: s)
    rw [List.cons_append] at first ⊢
    rw [Re.find, Re.find, first]
    cases r.matchFrom ⟨before, y :: s, []⟩ some with
    | some m => rfl
    | none => exact ih (some y)

theorem Re.matchFrom_none (r : Re α) {c : Cursor α} {k : Cursor α → Option (Cursor α)}
    (never : ∀ d : Cursor α, d.input <:+ c.input → k d = none) : r.matchFrom c k = none := by
  cases found : r.matchFrom c k with
  | none => rfl
  | some m =>
    obtain ⟨w, d, input, -, done⟩ := r.takes_of_matchFrom found
    rw [never d ⟨w, input.symm⟩] at done
    cases done

theorem repeated_none (a : Re α) {c : Cursor α} {k : Cursor α → Option (Cursor α)} (fuel : Nat)
    (never : ∀ d : Cursor α, d.input <:+ c.input → k d = none) :
    repeated a.matchFrom fuel c k = none := by
  induction fuel generalizing c with
  | zero => exact never c (List.suffix_refl _)
  | succ fuel ih =>
    have round : a.matchFrom c (fun d => if d.input.length < c.input.length then
        repeated a.matchFrom fuel d k else none) = none := by
      refine a.matchFrom_none fun d later => ?_
      split
      · exact ih fun e last => never e (last.trans later)
      · rfl
    rw [repeated, round]
    exact never c (List.suffix_refl _)

theorem repeated_append {a : Re α} {more : List α}
    (same : ∀ {c : Cursor α} {k j : Cursor α → Option (Cursor α)},
      (∀ d, k (d.extend more) = (j d).map (Cursor.extend more)) →
      (∀ d : Cursor α, d.input <:+ more → k d = none) →
      a.matchFrom (c.extend more) k = (a.matchFrom c j).map (Cursor.extend more))
    {k k' : Cursor α → Option (Cursor α)}
    (next : ∀ d, k (d.extend more) = (k' d).map (Cursor.extend more))
    (never : ∀ d : Cursor α, d.input <:+ more → k d = none) (extra fuel : Nat) {c : Cursor α}
    (enough : c.input.length ≤ fuel) :
    repeated a.matchFrom (fuel + extra) (c.extend more) k =
      (repeated a.matchFrom fuel c k').map (Cursor.extend more) := by
  induction fuel generalizing c with
  | zero =>
    have last : (c.extend more).input = more := by
      rw [Cursor.extend, List.eq_nil_of_length_eq_zero (Nat.le_zero.mp enough), List.nil_append]
    rw [repeated_none a (0 + extra) fun d later => never d (last ▸ later), repeated, ← next,
      never (c.extend more) ⟨[], last⟩]
  | succ fuel ih =>
    rw [Nat.succ_add, repeated, repeated, same (j := fun d =>
      if d.input.length < c.input.length then repeated a.matchFrom fuel d k' else none)]
    · cases a.matchFrom c _ with
      | some m => rfl
      | none => exact next c
    · intro d
      have shorter : (d.extend more).input.length < (c.extend more).input.length ↔
          d.input.length < c.input.length := by simp [Cursor.extend]
      simp only [shorter]
      split
      · exact ih (by omega)
      · rfl
    · intro d inside
      split
      · exact repeated_none a _ fun e later => never e (later.trans inside)
      · rfl

/-- A text that the rest of a match cannot end in may follow without changing the match. -/
theorem Re.matchFrom_append {more : List α} (r : Re α) (plain : r.plain = true) {c : Cursor α}
    {k k' : Cursor α → Option (Cursor α)}
    (next : ∀ d, k (d.extend more) = (k' d).map (Cursor.extend more))
    (never : ∀ d : Cursor α, d.input <:+ more → k d = none) :
    r.matchFrom (c.extend more) k = (r.matchFrom c k').map (Cursor.extend more) := by
  induction r generalizing c k k' with
  | empty => exact next c
  | one test =>
    rw [Re.matchFrom, Re.matchFrom]
    obtain ⟨before, input, groups⟩ := c
    cases input with
    | nil =>
      cases more with
      | nil => rfl
      | cons x more =>
        simp only [Cursor.extend, List.nil_append, Option.map_none, ite_eq_right_iff]
        exact fun _ => never _ (List.suffix_cons x more)
    | cons y rest =>
      simp only [Cursor.extend, List.cons_append]
      split
      · exact next ⟨some y, rest, groups⟩
      · rfl
  | seq a b first second =>
    obtain ⟨left, right⟩ := Bool.and_eq_true_iff.mp plain
    exact first left (fun d => second right next never) fun d inside =>
      b.matchFrom_none fun e later => never e (later.trans inside)
  | alt a b left right =>
    obtain ⟨plainLeft, plainRight⟩ := Bool.and_eq_true_iff.mp plain
    rw [Re.matchFrom, Re.matchFrom, left plainLeft next never]
    cases a.matchFrom c k' with
    | some m => rfl
    | none => exact right plainRight next never
  | star a ih =>
    have length : (c.extend more).input.length = c.input.length + more.length :=
      List.length_append
    rw [Re.matchFrom, Re.matchFrom, length]
    exact repeated_append (ih plain) next never _ _ (Nat.le_refl _)
  | group n a ih =>
    refine ih plain (fun d => ?_) fun d inside => never _ inside
    simp only [Cursor.extend, taken_append]
    exact next { d with groups := (n, c.input.take (c.input.length - d.input.length)) :: d.groups }
  | boundary word => cases plain

/-- The last symbol of a match is none of these. -/
def Re.ends (more : List α) : Re α → Bool
  | .one test => more.all fun x => !test x
  | .seq a .empty => a.ends more
  | .seq _ b => b.ends more
  | _ => false

theorem Re.matchFrom_ends {more : List α} (r : Re α) (plain : r.plain = true)
    (ends : r.ends more = true) :
    (∀ c : Cursor α, r.matchFrom (c.extend more) some =
      (r.matchFrom c some).map (Cursor.extend more)) ∧
      ∀ d : Cursor α, d.input <:+ more → r.matchFrom d some = none := by
  fun_induction Re.ends more r with
  | case1 test =>
    have refused (d : Cursor α) (inside : d.input <:+ more) :
        (Re.one test).matchFrom d some = none := by
      rw [Re.matchFrom]
      split
      · rfl
      · rename_i x rest input
        have other := List.all_eq_true.mp ends x (inside.subset (by simp [input]))
        simp only [Bool.not_eq_true'] at other
        simp [other]
    refine ⟨fun c => ?_, refused⟩
    obtain ⟨before, input, groups⟩ := c
    cases input with
    | nil => exact refused _ (List.suffix_refl more)
    | cons x rest =>
      simp only [Cursor.extend, List.cons_append, Re.matchFrom]
      split <;> rfl
  | case2 a ih => exact ih (Bool.and_eq_true_iff.mp plain).1 ends
  | case3 a b _ ih =>
    obtain ⟨left, right⟩ := Bool.and_eq_true_iff.mp plain
    obtain ⟨next, never⟩ := ih right ends
    exact ⟨fun c => a.matchFrom_append left next never, fun d inside =>
      a.matchFrom_none fun e later => never e (later.trans inside)⟩
  | case4 => cases ends

def Re.marks (r : Re α) (before : Option α) (skip : Nat) : List α → List (α × Bool)
  | [] => []
  | x :: rest =>
    match skip with
    | skip + 1 => (x, true) :: r.marks (some x) skip rest
    | 0 =>
      match r.matchFrom ⟨before, x :: rest, []⟩ some with
      | some found =>
        if found.input.length ≤ rest.length then
          (x, true) :: r.marks (some x) (rest.length - found.input.length) rest
        else (x, false) :: r.marks (some x) 0 rest
      | none => (x, false) :: r.marks (some x) 0 rest

theorem Re.marks_fst (r : Re α) (before : Option α) (skip : Nat) (s : List α) :
    (r.marks before skip s).map Prod.fst = s := by
  induction s generalizing before skip with
  | nil => rfl
  | cons x s ih =>
    unfold Re.marks
    split
    · rw [List.map_cons, ih]
    · split
      · split <;> rw [List.map_cons, ih]
      · rw [List.map_cons, ih]

theorem Re.removeAll_eq (r : Re α) (before : Option α) (skip : Nat) (s : List α) :
    r.removeAll before skip s = ((r.marks before skip s).filter (!·.2)).map Prod.fst := by
  induction s generalizing before skip with
  | nil => rfl
  | cons x s ih =>
    cases skip with
    | succ skip => exact ih _ _
    | zero =>
      simp only [Re.removeAll, Re.marks]
      cases r.matchFrom ⟨before, x :: s, []⟩ some with
      | none => exact congrArg (x :: ·) (ih _ _)
      | some found =>
        dsimp only
        split
        · exact ih _ _
        · exact congrArg (x :: ·) (ih _ _)

theorem Re.removeAll_skip (r : Re α) (before : Option α) (w s : List α) :
    ∃ b, r.removeAll before w.length (w ++ s) = r.removeAll b 0 s := by
  induction w generalizing before with
  | nil => exact ⟨before, rfl⟩
  | cons x w ih => exact ih (some x)

theorem Re.removeAll_match (r : Re α) {before : Option α} {w : List α} {m : Cursor α}
    (some : w ≠ []) (found : r.matchFrom ⟨before, w ++ m.input, []⟩ Option.some = Option.some m) :
    ∃ b, r.removeAll before 0 (w ++ m.input) = r.removeAll b 0 m.input := by
  cases w with
  | nil => exact absurd rfl some
  | cons x w =>
    have inside : m.input.length ≤ (w ++ m.input).length := by simp
    have left : (w ++ m.input).length - m.input.length = w.length := by simp
    rw [List.cons_append] at found ⊢
    simp only [Re.removeAll, found, inside, if_true, left]
    exact r.removeAll_skip _ w m.input

theorem Re.removeAll_sublist (r : Re α) (before : Option α) (skip : Nat) (s : List α) :
    (r.removeAll before skip s).Sublist s := by
  induction s generalizing before skip with
  | nil => exact .slnil
  | cons x s ih =>
    unfold Re.removeAll
    split
    · exact (ih _ _).cons x
    · split
      · split
        · exact (ih _ _).cons x
        · exact (ih _ _).cons_cons x
      · exact (ih _ _).cons_cons x

theorem Re.removeAll_of_find_none (r : Re α) {before : Option α} {s : List α}
    (none : r.find before s = .none) : r.removeAll before 0 s = s := by
  induction s generalizing before with
  | nil => rfl
  | cons x s ih =>
    rw [Re.find] at none
    split at none
    · cases none
    · rename_i failed
      simp only [Re.removeAll, failed, ih none]

theorem Re.count_removeAll [BEq α] [LawfulBEq α] (r : Re α) {y : α} (has : ∀ w, r.Takes w → y ∈ w)
    {before : Option α} {s : List α} {m : Cursor α} (found : r.find before s = some m) :
    (r.removeAll before 0 s).count y < s.count y := by
  have here {before : Option α} {s : List α} {m : Cursor α}
      (found : r.matchFrom ⟨before, s, []⟩ some = some m) :
      (r.removeAll before 0 s).count y < s.count y := by
    obtain ⟨w, d, input, takes, done⟩ := r.takes_of_matchFrom found
    obtain rfl : d = m := Option.some.inj done
    have mem := has w takes
    obtain rfl : s = w ++ d.input := input
    obtain ⟨b, rest⟩ := r.removeAll_match (List.ne_nil_of_mem mem) found
    have fewer := (r.removeAll_sublist b 0 d.input).count_le y
    have some : 0 < w.count y := List.count_pos_iff.mpr mem
    rw [rest, List.count_append]
    omega
  induction s generalizing before with
  | nil => exact here found
  | cons x s ih =>
    rw [Re.find] at found
    split at found
    · rename_i first
      exact here first
    · rename_i failed
      have later := ih found
      simp only [Re.removeAll, failed, List.count_cons]
      omega

end TQDBProxy.Regex
