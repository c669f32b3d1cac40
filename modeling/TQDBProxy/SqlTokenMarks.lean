import TQDBProxy.SqlCode

/-! Tokens whose bytes carry marks. When marked bytes are cut out, the text that is left has
the other tokens of the text, unchanged, exactly when every run of cut bytes is made of
whole comments and the bytes around a run do not become one token. -/

namespace TQDBProxy.SqlTokens

variable {τ : Type} {d : Dialect} {l : Lex} {b : UInt8}

/-- The byte is read as between tokens: it does not continue the pending one. -/
def Apart (d : Dialect) (l : Lex) (b : UInt8) : Prop := step d l b = fresh d l b

instance (d : Dialect) (l : Lex) (b : UInt8) : Decidable (Apart d l b) :=
  inferInstanceAs (Decidable (_ = _))

theorem extend_of_not_apart (joined : ¬ Apart d l b) :
    l.mode ≠ .gap ∧ ∃ mode, step d l b = l.extend b mode := by
  rcases step_cases d l b with eq | extended | ⟨space, eq⟩
  · exact absurd eq joined
  · exact extended
  · exact absurd (eq.trans (by rw [fresh, if_pos space])) joined

theorem apart_gap (ts : List GoString) (b : UInt8) : Apart d ⟨.gap, ts⟩ b := rfl

theorem Lex.prepend_injective (ts : List GoString) {l l' : Lex}
    (eq : l.prepend ts = l'.prepend ts) :
    l = l' := by
  obtain ⟨mode, toks⟩ := l
  obtain ⟨mode', toks'⟩ := l'
  obtain ⟨sameMode, same⟩ := Lex.mk.inj eq
  exact Lex.mk.injEq .. ▸ ⟨sameMode, List.append_cancel_left same⟩

theorem apart_prepend (ts : List GoString) (ok : l.Ok) :
    Apart d (l.prepend ts) b ↔ Apart d l b := by
  rw [Apart, step_prepend ts ok, fresh_prepend]
  exact ⟨Lex.prepend_injective ts, congrArg _⟩

def bytes (ps : List (UInt8 × τ)) : GoString := ps.map Prod.fst

theorem bytes_append (ps qs : List (UInt8 × τ)) : bytes (ps ++ qs) = bytes ps ++ bytes qs :=
  List.map_append

@[ext] structure Reading (τ : Type) where
  mode : Mode
  toks : List (List (UInt8 × τ))

namespace Reading

def lex (r : Reading τ) : Lex := ⟨r.mode, r.toks.map bytes⟩

def step (d : Dialect) (r : Reading τ) (p : UInt8 × τ) : Reading τ :=
  ⟨(SqlTokens.step d r.lex p.1).mode,
    if Apart d r.lex p.1 then (if isSpace p.1 then r.toks else r.toks ++ [[p]])
    else r.toks.dropLast ++ [r.toks.getLastD [] ++ [p]]⟩

def prepend (ts : List (List (UInt8 × τ))) (r : Reading τ) : Reading τ := ⟨r.mode, ts ++ r.toks⟩

def Ok (r : Reading τ) : Prop := r.mode = .gap ∨ r.toks ≠ []

end Reading

def readFrom (d : Dialect) (r : Reading τ) (ps : List (UInt8 × τ)) : Reading τ :=
  ps.foldl (Reading.step d) r

def read (d : Dialect) (ps : List (UInt8 × τ)) : Reading τ := readFrom d ⟨.gap, []⟩ ps

theorem readFrom_append (r : Reading τ) (ps qs : List (UInt8 × τ)) :
    readFrom d r (ps ++ qs) = readFrom d (readFrom d r ps) qs := List.foldl_append

theorem readFrom_cons (r : Reading τ) (p : UInt8 × τ) (ps : List (UInt8 × τ)) :
    readFrom d r (p :: ps) = readFrom d (r.step d p) ps := rfl

theorem read_append (ps qs : List (UInt8 × τ)) : read d (ps ++ qs) = readFrom d (read d ps) qs :=
  readFrom_append _ ps qs

namespace Reading

variable {r : Reading τ} {p : UInt8 × τ}

theorem lex_ok (ok : r.Ok) : r.lex.Ok := ok.imp id fun some => by simpa [lex] using some

theorem toks_step (ok : r.Ok) :
    (Apart d r.lex p.1 ∧ isSpace p.1 = true ∧ (r.step d p).toks = r.toks) ∨
      (Apart d r.lex p.1 ∧ isSpace p.1 = false ∧ (r.step d p).toks = r.toks ++ [[p]]) ∨
      (¬ Apart d r.lex p.1 ∧ ∃ init t, r.toks = init ++ [t] ∧
        (r.step d p).toks = init ++ [t ++ [p]]) := by
  by_cases apart : Apart d r.lex p.1
  · cases space : isSpace p.1 with
    | true => exact .inl ⟨apart, rfl, by simp [step, apart, space]⟩
    | false => exact .inr (.inl ⟨apart, rfl, by simp [step, apart, space]⟩)
  · have pending : r.mode ≠ .gap := (extend_of_not_apart apart).1
    obtain ⟨init, t, eq⟩ := (List.eq_nil_or_concat' r.toks).resolve_left (ok.resolve_left pending)
    exact .inr (.inr ⟨apart, init, t, eq, by simp [step, apart, eq]⟩)

theorem mem_step (ok : r.Ok) {t : List (UInt8 × τ)} (mem : t ∈ (r.step d p).toks) :
    t ∈ r.toks ∨ ∃ u, t = u ++ [p] ∧ (u = [] ∨ u ∈ r.toks) := by
  rcases toks_step (d := d) (p := p) ok with
    ⟨-, -, same⟩ | ⟨-, -, pushed⟩ | ⟨-, init, u, was, extended⟩
  · exact .inl (same ▸ mem)
  · rcases List.mem_append.mp (pushed ▸ mem) with mem | mem
    · exact .inl mem
    · exact .inr ⟨[], List.mem_singleton.mp mem, .inl rfl⟩
  · rcases List.mem_append.mp (extended ▸ mem) with mem | mem
    · exact .inl (by rw [was]; simp [mem])
    · exact .inr ⟨u, List.mem_singleton.mp mem, .inr (by rw [was]; simp)⟩

theorem lex_step (ok : r.Ok) : (r.step d p).lex = SqlTokens.step d r.lex p.1 := by
  have toks : (r.step d p).toks.map bytes = (SqlTokens.step d r.lex p.1).toks := by
    rcases toks_step (d := d) (p := p) ok with
      ⟨apart, space, eq⟩ | ⟨apart, other, eq⟩ | ⟨joined, init, t, was, eq⟩
    · rw [eq, show SqlTokens.step d r.lex p.1 = _ from apart, fresh, if_pos space]
      rfl
    · rw [eq, show SqlTokens.step d r.lex p.1 = _ from apart]
      rcases fresh_cases d p.1 with ⟨space, -⟩ | ⟨-, mode, -, pushed⟩
      · rw [other] at space
        cases space
      · rw [pushed]
        simp [Lex.push, lex, bytes]
    · obtain ⟨-, mode, extended⟩ := extend_of_not_apart joined
      rw [eq, extended]
      simp [Lex.extend, lex, was, extendLast_append, bytes]
  exact congrArg (Lex.mk _) toks

theorem step_ok (ok : r.Ok) : (r.step d p).Ok := by
  have next : (r.step d p).lex.Ok := by
    rw [lex_step ok]
    exact SqlTokens.step_ok
  exact next.imp id fun some => by simpa [lex] using some

theorem lex_prepend (ts : List (List (UInt8 × τ))) (r : Reading τ) :
    (r.prepend ts).lex = r.lex.prepend (ts.map bytes) := by
  simp [prepend, lex, Lex.prepend]

theorem step_prepend (ts : List (List (UInt8 × τ))) (ok : r.Ok) :
    (r.prepend ts).step d p = (r.step d p).prepend ts := by
  have same : Apart d (r.prepend ts).lex p.1 ↔ Apart d r.lex p.1 := by
    rw [lex_prepend]
    exact apart_prepend _ (lex_ok ok)
  have mode :
      (SqlTokens.step d (r.prepend ts).lex p.1).mode = (SqlTokens.step d r.lex p.1).mode := by
    rw [lex_prepend, SqlTokens.step_prepend _ (lex_ok ok)]
    rfl
  have own : (r.prepend ts).toks = ts ++ r.toks := rfl
  refine Reading.ext mode ?_
  change (if _ then _ else _) = ts ++ (if _ then _ else _)
  by_cases apart : Apart d r.lex p.1
  · rw [if_pos apart, if_pos (same.mpr apart), own]
    split
    · rfl
    · rw [List.append_assoc]
  · have pending : r.mode ≠ .gap := (extend_of_not_apart apart).1
    obtain ⟨init, t, eq⟩ := (List.eq_nil_or_concat' r.toks).resolve_left (ok.resolve_left pending)
    rw [if_neg apart, if_neg (mt same.mp apart), own, eq, ← List.append_assoc]
    simp

theorem step_apart (apart : Apart d r.lex p.1) :
    r.step d p = (Reading.step d ⟨.gap, []⟩ p).prepend r.toks := by
  have first : Apart d (Reading.lex (⟨.gap, []⟩ : Reading τ)) p.1 := apart_gap _ _
  have mode : (SqlTokens.step d r.lex p.1).mode =
      (SqlTokens.step d (Reading.lex (⟨.gap, []⟩ : Reading τ)) p.1).mode := by
    rw [show SqlTokens.step d r.lex p.1 = _ from apart, show SqlTokens.step d _ p.1 = _ from first]
    rcases fresh_cases d p.1 with ⟨-, eq⟩ | ⟨-, mode, -, eq⟩
    · rw [eq, eq]
    · rw [eq, eq]
      rfl
  cases space : isSpace p.1 <;> simp [step, mode, apart, first, space, prepend]

end Reading

variable {r : Reading τ}

theorem readFrom_ok (ok : r.Ok) (ps : List (UInt8 × τ)) : (readFrom d r ps).Ok := by
  induction ps generalizing r with
  | nil => exact ok
  | cons p ps ih => exact ih (Reading.step_ok ok)

theorem read_ok (d : Dialect) (ps : List (UInt8 × τ)) : (read d ps).Ok := readFrom_ok (.inl rfl) ps

theorem lex_readFrom (ok : r.Ok) (ps : List (UInt8 × τ)) :
    (readFrom d r ps).lex = run d r.lex (bytes ps) := by
  induction ps generalizing r with
  | nil => rfl
  | cons p ps ih =>
    rw [readFrom_cons, ih (Reading.step_ok ok), Reading.lex_step ok]
    rfl

theorem lex_read (d : Dialect) (ps : List (UInt8 × τ)) : (read d ps).lex = lex d (bytes ps) :=
  lex_readFrom (.inl rfl) ps

theorem tokens_read (d : Dialect) (ps : List (UInt8 × τ)) :
    (read d ps).toks.map bytes = tokens d (bytes ps) := congrArg Lex.toks (lex_read d ps)

theorem readFrom_prepend (ts : List (List (UInt8 × τ))) (ok : r.Ok) (ps : List (UInt8 × τ)) :
    readFrom d (r.prepend ts) ps = (readFrom d r ps).prepend ts := by
  induction ps generalizing r with
  | nil => rfl
  | cons p ps ih =>
    rw [readFrom_cons, readFrom_cons, Reading.step_prepend ts ok, ih (Reading.step_ok ok)]

theorem readFrom_apart {p : UInt8 × τ} (apart : Apart d r.lex p.1) (ps : List (UInt8 × τ)) :
    readFrom d r (p :: ps) = (read d (p :: ps)).prepend r.toks := by
  rw [readFrom_cons, Reading.step_apart apart, readFrom_prepend _ (Reading.step_ok (.inl rfl))]
  rfl

theorem readFrom_keeps {init : List (List (UInt8 × τ))} {t : List (UInt8 × τ)} (ok : r.Ok)
    (held : r.toks = init ++ [t]) (ps : List (UInt8 × τ)) :
    ∃ t' more, (readFrom d r ps).toks = init ++ t' :: more ∧ t <+: t' := by
  induction ps using List.reverseRecOn with
  | nil => exact ⟨t, [], held, List.prefix_rfl⟩
  | append_singleton ps p ih =>
    obtain ⟨t', more, eq, pre⟩ := ih
    rw [readFrom_append]
    rcases Reading.toks_step (d := d) (p := p) (readFrom_ok (d := d) ok ps) with
      ⟨-, -, same⟩ | ⟨-, -, pushed⟩ | ⟨-, front, u, was, extended⟩
    · exact ⟨t', more, same.trans eq, pre⟩
    · exact ⟨t', more ++ [[p]], pushed.trans (by simp [eq]), pre⟩
    · rw [eq] at was
      rcases List.eq_nil_or_concat' more with rfl | ⟨rest, v, rfl⟩
      · obtain ⟨rfl, same⟩ := List.append_inj' was rfl
        obtain rfl : t' = u := by simpa using same
        exact ⟨t' ++ [p], [], extended, pre.trans (List.prefix_append ..)⟩
      · have was : (init ++ t' :: rest) ++ [v] = front ++ [u] := by simpa using was
        obtain ⟨rfl, -⟩ := List.append_inj' was rfl
        exact ⟨t', rest ++ [u ++ [p]], extended.trans (by simp), pre⟩

theorem read_toks (d : Dialect) (ps : List (UInt8 × τ)) :
    ∀ t ∈ (read d ps).toks, t ≠ [] ∧ ∀ p ∈ t, p ∈ ps := by
  induction ps using List.reverseRecOn with
  | nil => simp [read, readFrom]
  | append_singleton ps p ih =>
    have old : ∀ t ∈ (read d ps).toks, t ≠ [] ∧ ∀ q ∈ t, q ∈ ps ++ [p] := fun t mem =>
      ⟨(ih t mem).1, fun q inside => List.mem_append_left _ ((ih t mem).2 q inside)⟩
    intro t mem
    rw [read_append] at mem
    rcases Reading.mem_step (read_ok d ps) mem with mem | ⟨u, rfl, was⟩
    · exact old t mem
    · refine ⟨by simp, fun q inside => ?_⟩
      rcases List.mem_append.mp inside with inside | inside
      · rcases was with rfl | was
        · cases inside
        · exact (old u was).2 q inside
      · exact List.mem_append_right _ inside

section Cut

variable (d : Dialect) (cut : τ → Bool)

def uncut (ps : List (UInt8 × τ)) : List (UInt8 × τ) := ps.filter (!cut ·.2)

def Whole (t : List (UInt8 × τ)) : Prop :=
  (∀ p ∈ t, cut p.2 = false) ∨ isComment d (bytes t) = true ∧ ∀ p ∈ t, cut p.2 = true

def Kept (ps : List (UInt8 × τ)) : Prop :=
  (read d (uncut cut ps)).toks = (read d ps).toks.filter (·.all (!cut ·.2))

/-- A run `w` of cut bytes between `x` and `y`: whole comments, with the byte after them read as
between tokens, and so after the text that is left of `x`. -/
def Separable (x w y : List (UInt8 × τ)) : Prop :=
  (∀ p ∈ w.head?, Apart d (lex d (bytes x)) p.1) ∧
    (∀ t ∈ tokens d (bytes w), isComment d t = true) ∧
    (∀ p ∈ y.head?, Apart d (lex d (bytes w)) p.1) ∧
    ∀ p ∈ y.head?, Apart d (lex d (bytes (uncut cut x))) p.1

instance (x w y : List (UInt8 × τ)) : Decidable (Separable d cut x w y) :=
  inferInstanceAs (Decidable (_ ∧ _ ∧ _ ∧ _))

/-- Every run of cut bytes is separable; `x` is read and `w` is the run before the rest. -/
def clean (x w : List (UInt8 × τ)) : List (UInt8 × τ) → Bool
  | [] => w.isEmpty || decide (Separable d cut x w [])
  | p :: rest =>
    if cut p.2 then clean x (w ++ [p]) rest
    else (w.isEmpty || decide (Separable d cut x w (p :: rest))) && clean (x ++ w ++ [p]) [] rest

variable {d cut}

theorem uncut_append (ps qs : List (UInt8 × τ)) :
    uncut cut (ps ++ qs) = uncut cut ps ++ uncut cut qs :=
  List.filter_append ..

theorem uncut_run {w : List (UInt8 × τ)} (run : ∀ p ∈ w, cut p.2 = true) : uncut cut w = [] := by
  rw [uncut, List.filter_eq_nil_iff]
  intro p mem
  simp [run p mem]

def Aligned (d : Dialect) (cut : τ → Bool) (x : List (UInt8 × τ)) : Prop :=
  ∃ core ts, read d x = Reading.prepend ts core ∧
    read d (uncut cut x) = core.prepend (ts.filter (·.all (!cut ·.2))) ∧ core.Ok ∧
    (∀ t ∈ ts, Whole d cut t) ∧ ∀ t ∈ core.toks, t ≠ [] ∧ ∀ p ∈ t, cut p.2 = false

theorem aligned_nil : Aligned d cut [] := ⟨⟨.gap, []⟩, [], rfl, rfl, .inl rfl, by simp, by simp⟩

theorem filter_left {ts : List (List (UInt8 × τ))} (left : ∀ t ∈ ts, ∀ p ∈ t, cut p.2 = false) :
    ts.filter (·.all (!cut ·.2)) = ts := by
  rw [List.filter_eq_self]
  intro t mem
  simpa using fun b m inside => left t mem (b, m) inside

theorem filter_cut {ts : List (List (UInt8 × τ))}
    (gone : ∀ t ∈ ts, t ≠ [] ∧ ∀ p ∈ t, cut p.2 = true) : ts.filter (·.all (!cut ·.2)) = [] := by
  rw [List.filter_eq_nil_iff]
  intro t mem all
  obtain ⟨some, each⟩ := gone t mem
  obtain ⟨p, rest, rfl⟩ := List.exists_cons_of_ne_nil some
  have clash := List.all_eq_true.mp all p (by simp)
  simp [each p (by simp)] at clash

variable {x w y : List (UInt8 × τ)} {p : UInt8 × τ}

theorem Aligned.whole (aligned : Aligned d cut x) : ∀ t ∈ (read d x).toks, Whole d cut t := by
  obtain ⟨core, ts, full, -, -, whole, left⟩ := aligned
  intro t mem
  rw [full] at mem
  rcases List.mem_append.mp mem with mem | mem
  · exact whole t mem
  · exact .inl (left t mem).2

theorem Aligned.kept (aligned : Aligned d cut x) : Kept d cut x := by
  obtain ⟨core, ts, full, rest, -, -, left⟩ := aligned
  have same := filter_left fun t mem => (left t mem).2
  rw [Kept, full, rest, Reading.prepend, Reading.prepend, List.filter_append, same]

theorem Aligned.snoc (aligned : Aligned d cut x) (kept : cut p.2 = false) :
    Aligned d cut (x ++ [p]) := by
  obtain ⟨core, ts, full, rest, ok, whole, left⟩ := aligned
  have last : uncut cut [p] = [p] := by simp [uncut, kept]
  refine ⟨core.step d p, ts, ?_, ?_, Reading.step_ok ok, whole, ?_⟩
  · rw [read_append, full]
    exact Reading.step_prepend ts ok
  · rw [uncut_append, last, read_append, rest]
    exact Reading.step_prepend _ ok
  · intro t mem
    rcases Reading.mem_step ok mem with mem | ⟨u, rfl, was⟩
    · exact left t mem
    · refine ⟨by simp, fun q inside => ?_⟩
      rcases List.mem_append.mp inside with inside | inside
      · rcases was with rfl | was
        · cases inside
        · exact (left u was).2 q inside
      · rw [List.mem_singleton.mp inside]
        exact kept

theorem Aligned.toks (aligned : Aligned d cut x) :
    (read d (uncut cut x)).toks = (read d x).toks.filter (·.all (!cut ·.2)) := aligned.kept

theorem run_toks (run : ∀ p ∈ w, cut p.2 = true) :
    ∀ t ∈ (read d w).toks, t ≠ [] ∧ ∀ p ∈ t, cut p.2 = true := fun t mem =>
  ⟨(read_toks d w t mem).1, fun p inside => run p ((read_toks d w t mem).2 p inside)⟩

theorem read_run (some : w ≠ []) (starts : ∀ p ∈ w.head?, Apart d (lex d (bytes x)) p.1) :
    read d (x ++ w) = (read d w).prepend (read d x).toks := by
  obtain ⟨p, w, rfl⟩ := List.exists_cons_of_ne_nil some
  rw [read_append]
  exact readFrom_apart (by rw [lex_read]; exact starts p rfl) w

theorem apart_run (some : w ≠ []) (starts : ∀ p ∈ w.head?, Apart d (lex d (bytes x)) p.1)
    (ends : Apart d (lex d (bytes w)) p.1) : Apart d (read d (x ++ w)).lex p.1 := by
  rw [read_run some starts, Reading.lex_prepend, apart_prepend _ (Reading.lex_ok (read_ok d w)),
    lex_read]
  exact ends

theorem whole_run (run : ∀ p ∈ w, cut p.2 = true)
    (comments : ∀ t ∈ tokens d (bytes w), isComment d t = true) :
    ∀ t ∈ (read d w).toks, Whole d cut t := by
  intro t mem
  refine .inr ⟨comments _ ?_, (run_toks run t mem).2⟩
  rw [← tokens_read]
  exact List.mem_map_of_mem mem

theorem Aligned.run (aligned : Aligned d cut x) (run : ∀ p ∈ w, cut p.2 = true) (some : w ≠ [])
    (kept : cut p.2 = false) (separable : Separable d cut x w (p :: y)) :
    Aligned d cut (x ++ w ++ [p]) := by
  obtain ⟨starts, comments, ends, apart⟩ := separable
  have last : uncut cut (x ++ w ++ [p]) = uncut cut x ++ [p] := by
    rw [uncut_append, uncut_append, uncut_run run]
    simp [uncut, kept]
  have behind := apart_run some starts (ends p rfl)
  have joined : Apart d (read d (uncut cut x)).lex p.1 := by
    rw [lex_read]
    exact apart p rfl
  have ok : (Reading.step d (⟨.gap, []⟩ : Reading τ) p).Ok := Reading.step_ok (.inl rfl)
  refine ⟨Reading.step d ⟨.gap, []⟩ p, (read d x).toks ++ (read d w).toks, ?_, ?_, ok, ?_, ?_⟩
  · rw [read_append, readFrom_cons, Reading.step_apart behind, read_run some starts]
    rfl
  · rw [last, read_append, readFrom_cons, Reading.step_apart joined, aligned.toks,
      List.filter_append,
      filter_cut (run_toks run), List.append_nil]
    rfl
  · intro t mem
    rcases List.mem_append.mp mem with mem | mem
    · exact aligned.whole t mem
    · exact whole_run run comments t mem
  · intro t mem
    obtain ⟨some, inside⟩ := read_toks d [p] t mem
    refine ⟨some, fun q found => ?_⟩
    rw [List.mem_singleton.mp (inside q found)]
    exact kept

theorem Aligned.last (aligned : Aligned d cut x) (run : ∀ p ∈ w, cut p.2 = true) (some : w ≠ [])
    (separable : Separable d cut x w []) :
    (∀ t ∈ (read d (x ++ w)).toks, Whole d cut t) ∧ Kept d cut (x ++ w) := by
  obtain ⟨starts, comments, -⟩ := separable
  have toks : (read d (x ++ w)).toks = (read d x).toks ++ (read d w).toks := by
    rw [read_run some starts]
    rfl
  constructor
  · intro t mem
    rw [toks] at mem
    rcases List.mem_append.mp mem with mem | mem
    · exact aligned.whole t mem
    · exact whole_run run comments t mem
  · rw [Kept, uncut_append, uncut_run run, List.append_nil, aligned.toks, toks, List.filter_append,
      filter_cut (run_toks run), List.append_nil]

theorem not_whole {t : List (UInt8 × τ)} {p q : UInt8 × τ} (one : p ∈ t) (other : q ∈ t)
    (kept : cut p.2 = false) (gone : cut q.2 = true) : ¬ Whole d cut t := by
  rintro (left | ⟨-, all⟩)
  · have clash := left q other
    rw [gone] at clash
    cases clash
  · have clash := all p one
    rw [kept] at clash
    cases clash

theorem joined_token {p : UInt8 × τ} (ok : r.Ok) (joined : ¬ Apart d r.lex p.1)
    (ps : List (UInt8 × τ)) :
    ∃ init t t' more, r.toks = init ++ [t] ∧ (readFrom d r (p :: ps)).toks = init ++ t' :: more ∧
      t ++ [p] <+: t' := by
  rcases Reading.toks_step (d := d) (p := p) ok with
    ⟨apart, -⟩ | ⟨apart, -⟩ | ⟨-, init, t, was, extended⟩
  · exact absurd apart joined
  · exact absurd apart joined
  · obtain ⟨t', more, eq, pre⟩ := readFrom_keeps (d := d) (Reading.step_ok ok) extended ps
    exact ⟨init, t, t', more, was, eq, pre⟩

theorem Aligned.pending (aligned : Aligned d cut x) (mode : (read d x).mode ≠ .gap)
    {init : List (List (UInt8 × τ))} {t : List (UInt8 × τ)} (was : (read d x).toks = init ++ [t]) :
    t ≠ [] ∧ ∀ p ∈ t, cut p.2 = false := by
  obtain ⟨core, ts, full, -, ok, -, left⟩ := aligned
  rw [full] at mode was
  obtain ⟨front, u, eq⟩ := (List.eq_nil_or_concat' core.toks).resolve_left (ok.resolve_left mode)
  have was : (ts ++ front) ++ [u] = init ++ [t] := by
    rw [List.append_assoc, ← eq]
    exact was
  obtain rfl : u = t := by simpa using (List.append_inj' was rfl).2
  exact left u (by rw [eq]; simp)

theorem read_through (some : w ≠ []) (starts : ∀ p ∈ w.head?, Apart d (lex d (bytes x)) p.1)
    (ends : ∀ p ∈ y.head?, Apart d (lex d (bytes w)) p.1) :
    ∃ more, (read d (x ++ w ++ y)).toks = (read d x).toks ++ (read d w).toks ++ more := by
  have toks : (read d (x ++ w)).toks = (read d x).toks ++ (read d w).toks := by
    rw [read_run some starts]
    rfl
  cases y with
  | nil => exact ⟨[], by rw [List.append_nil, List.append_nil, toks]⟩
  | cons p y =>
    refine ⟨(read d (p :: y)).toks, ?_⟩
    rw [read_append, readFrom_apart (apart_run some starts (ends p rfl)), ← toks]
    rfl

section Separable

variable (aligned : Aligned d cut x) (run : ∀ p ∈ w, cut p.2 = true) (some : w ≠ [])
  (follows : ∀ p ∈ y.head?, cut p.2 = false)

include aligned run in
theorem starts_of_whole (whole : ∀ t ∈ (read d (x ++ w ++ y)).toks, Whole d cut t) :
    ∀ p ∈ w.head?, Apart d (lex d (bytes x)) p.1 := by
  intro p first
  obtain ⟨w, rfl⟩ : ∃ w', w = p :: w' := ⟨w.tail, (List.cons_head?_tail first).symm⟩
  by_contra joined
  rw [← lex_read] at joined
  obtain ⟨init, t, t', more, was, eq, pre⟩ := joined_token (read_ok d x) joined (w ++ y)
  have mem : t' ∈ (read d (x ++ p :: w ++ y)).toks := by
    rw [List.append_assoc, read_append, List.cons_append, eq]
    simp
  obtain ⟨someBytes, left⟩ := aligned.pending (extend_of_not_apart joined).1 was
  obtain ⟨q, rest, rfl⟩ := List.exists_cons_of_ne_nil someBytes
  exact not_whole (pre.subset (by simp)) (pre.subset (by simp)) (left q (by simp)) (run p (by simp))
    (whole t' mem)

include run some follows in
theorem ends_of_whole (starts : ∀ p ∈ w.head?, Apart d (lex d (bytes x)) p.1)
    (whole : ∀ t ∈ (read d (x ++ w ++ y)).toks, Whole d cut t) :
    ∀ p ∈ y.head?, Apart d (lex d (bytes w)) p.1 := by
  intro p first
  obtain ⟨y, rfl⟩ : ∃ y', y = p :: y' := ⟨y.tail, (List.cons_head?_tail first).symm⟩
  by_contra joined
  rw [← lex_read] at joined
  obtain ⟨init, t, t', more, was, eq, pre⟩ := joined_token (read_ok d w) joined y
  have mem : t' ∈ (read d (x ++ w ++ p :: y)).toks := by
    rw [read_append, read_run some starts, readFrom_prepend _ (read_ok d w), Reading.prepend, eq]
    simp
  obtain ⟨someBytes, gone⟩ := run_toks run t (by rw [was]; simp)
  obtain ⟨q, rest, rfl⟩ := List.exists_cons_of_ne_nil someBytes
  exact not_whole (pre.subset (by simp)) (pre.subset (by simp)) (follows p rfl) (gone q (by simp))
    (whole t' mem)

include aligned run follows in
theorem apart_of_kept {more : List (List (UInt8 × τ))}
    (toks : (read d (x ++ w ++ y)).toks = (read d x).toks ++ (read d w).toks ++ more)
    (kept : Kept d cut (x ++ w ++ y)) :
      ∀ p ∈ y.head?, Apart d (lex d (bytes (uncut cut x))) p.1 := by
  intro p first
  obtain ⟨y, rfl⟩ : ∃ y', y = p :: y' := ⟨y.tail, (List.cons_head?_tail first).symm⟩
  by_contra joined
  rw [← lex_read] at joined
  obtain ⟨init, t, t', rest, was, eq, pre⟩ := joined_token (read_ok d _) joined (uncut cut y)
  have left : uncut cut (x ++ w ++ p :: y) = uncut cut x ++ p :: uncut cut y := by
    rw [uncut_append, uncut_append, uncut_run run, List.append_nil]
    simp [uncut, follows p rfl]
  rw [Kept, left, read_append, eq, toks, List.filter_append, List.filter_append,
    ← aligned.toks, was,
    filter_cut (run_toks run)] at kept
  -- the same place holds the pending token in one reading and a longer one in the other
  obtain rfl : t' = t := by
    have same : t' :: rest = t :: more.filter (·.all (!cut ·.2)) := by
      simpa using kept
    exact (List.cons.inj same).1
  have longer := pre.length_le
  rw [List.length_append, List.length_singleton] at longer
  omega

include aligned run some follows in
theorem separable_of_kept (whole : ∀ t ∈ (read d (x ++ w ++ y)).toks, Whole d cut t)
    (kept : Kept d cut (x ++ w ++ y)) : Separable d cut x w y := by
  have starts := starts_of_whole aligned run whole
  have ends := ends_of_whole run some follows starts whole
  obtain ⟨more, toks⟩ := read_through some starts ends
  refine ⟨starts, fun t mem => ?_, ends, apart_of_kept aligned run follows toks kept⟩
  rw [← tokens_read] at mem
  obtain ⟨u, found, rfl⟩ := List.mem_map.mp mem
  obtain ⟨someBytes, gone⟩ := run_toks run u found
  rcases whole u (by rw [toks]; simp [found]) with left | ⟨comment, -⟩
  · obtain ⟨q, rest, rfl⟩ := List.exists_cons_of_ne_nil someBytes
    have clash := left q (by simp)
    rw [gone q (by simp)] at clash
    cases clash
  · exact comment

end Separable

theorem clean_iff_of_aligned (rest : List (UInt8 × τ)) (aligned : Aligned d cut x)
    (run : ∀ p ∈ w, cut p.2 = true) :
    clean d cut x w rest = true ↔
      (∀ t ∈ (read d (x ++ w ++ rest)).toks, Whole d cut t) ∧ Kept d cut (x ++ w ++ rest) := by
  induction rest generalizing x w with
  | nil =>
    rw [clean, List.append_nil, Bool.or_eq_true, decide_eq_true_eq, List.isEmpty_iff]
    by_cases none : w = []
    · subst none
      rw [List.append_nil]
      exact iff_of_true (.inl rfl) ⟨aligned.whole, aligned.kept⟩
    · constructor
      · intro separable
        exact aligned.last run none (separable.resolve_left none)
      · rintro ⟨whole, kept⟩
        rw [← List.append_nil (x ++ w)] at whole kept
        exact .inr (separable_of_kept aligned run none (by simp) whole kept)
  | cons p rest ih =>
    rw [clean]
    split
    · rename_i gone
      have longer : ∀ q ∈ w ++ [p], cut q.2 = true := by
        intro q mem
        rcases List.mem_append.mp mem with mem | mem
        · exact run q mem
        · rw [List.mem_singleton.mp mem]
          exact gone
      have assoc : x ++ w ++ p :: rest = x ++ (w ++ [p]) ++ rest := by simp
      rw [assoc]
      exact ih aligned longer
    · rename_i left
      have left : cut p.2 = false := by simpa using left
      have assoc : x ++ w ++ p :: rest = x ++ w ++ [p] ++ [] ++ rest := by simp
      rw [Bool.and_eq_true, Bool.or_eq_true, decide_eq_true_eq, List.isEmpty_iff]
      -- a kept byte ends the run, so both readings are aligned again behind it
      have next (separable : w = [] ∨ Separable d cut x w (p :: rest)) :
          Aligned d cut (x ++ w ++ [p]) := by
        by_cases none : w = []
        · rw [none, List.append_nil]
          exact aligned.snoc left
        · exact aligned.run run none left (separable.resolve_left none)
      constructor
      · rintro ⟨separable, others⟩
        rw [assoc]
        exact (ih (next separable) (by simp)).mp others
      · rintro ⟨whole, kept⟩
        have separable : w = [] ∨ Separable d cut x w (p :: rest) := by
          by_cases none : w = []
          · exact .inl none
          · exact .inr (separable_of_kept aligned run none (by simpa using left) whole kept)
        rw [assoc] at whole kept
        exact ⟨separable, (ih (next separable) (by simp)).mpr ⟨whole, kept⟩⟩

/-- Cutting leaves the other tokens unchanged exactly when every run of cut bytes is separable. -/
theorem clean_iff (ps : List (UInt8 × τ)) :
    clean d cut [] [] ps = true ↔ (∀ t ∈ (read d ps).toks, Whole d cut t) ∧ Kept d cut ps :=
  clean_iff_of_aligned ps aligned_nil (by simp)

end Cut

section Trimmed

/-- The bytes of a trimmed mark are passed over or continue a comment. -/
def blankTrim (d : Dialect) (gone : τ → Bool) : Lex → List (UInt8 × τ) → Bool
  | _, [] => true
  | l, p :: rest =>
    (!gone p.2 || decide ((step d l p.1).toks = l.toks) || endsInComment d (step d l p.1).last) &&
      blankTrim d gone (step d l p.1) rest

variable {gone : τ → Bool}

theorem last_step (ok : r.Ok) {p : UInt8 × τ} {init : List (List (UInt8 × τ))}
    {t : List (UInt8 × τ)} (toks : (r.step d p).toks = init ++ [t]) :
    (step d r.lex p.1).last = bytes t := by
  rw [← Reading.lex_step ok, Lex.last, Reading.lex, toks]
  simp

theorem toks_ne (ok : r.Ok) {p : UInt8 × τ}
    (ne : ((r.step d p).toks.map bytes) ≠ r.toks.map bytes) :
    (step d r.lex p.1).toks ≠ r.lex.toks := by
  rw [← Reading.lex_step ok]
  exact ne

/-- The token loses no byte, or what it loses is part of a comment. -/
def Trimmable (d : Dialect) (gone : τ → Bool) (t : List (UInt8 × τ)) : Prop :=
  endsInComment d (bytes t) = true ∨ ∀ p ∈ t, gone p.2 = false

theorem Trimmable.append {t : List (UInt8 × τ)} {p : UInt8 × τ} (was : Trimmable d gone t)
    (kept : gone p.2 = false) (blank : ∀ q ∈ t, gone q.2 = true → muted q.1 = true) :
    Trimmable d gone (t ++ [p]) := by
  by_cases whole : ∀ q ∈ t, gone q.2 = false
  · refine .inr fun q mem => ?_
    rcases List.mem_append.mp mem with mem | mem
    · exact whole q mem
    · rw [List.mem_singleton.mp mem, kept]
  · have is := was.resolve_right whole
    obtain ⟨q, mem, lost⟩ : ∃ q ∈ t, gone q.2 = true := by simpa using whole
    obtain ⟨x, y, rfl⟩ := List.append_of_mem mem
    rw [bytes_append] at is
    rw [Trimmable, bytes_append, bytes_append]
    refine .inl (comment_append is ?_).1
    rintro rfl
    have plain : executable (bytes x) = false := by
      by_contra executed
      have longer := executable_append (by simpa using executed) (bytes (q :: y))
      rw [not_executable_of_comment is] at longer
      cases longer
    rw [List.append_assoc]
    exact not_executable_of_muted (blank q mem lost) plain (bytes y ++ bytes [p])

theorem toks_of_blankTrim {ps : List (UInt8 × τ)} (ok : r.Ok)
    (old : ∀ t ∈ r.toks, ∀ q ∈ t, gone q.2 = true → muted q.1 = true)
    (blank : ∀ p ∈ ps, gone p.2 = true → muted p.1 = true)
    (before : ∀ t ∈ r.toks, Trimmable d gone t) (silent : blankTrim d gone r.lex ps = true) :
    ∀ t ∈ (readFrom d r ps).toks, Trimmable d gone t := by
  induction ps generalizing r with
  | nil => exact before
  | cons p ps ih =>
    obtain ⟨first, rest⟩ := List.forall_mem_cons.mp blank
    rw [blankTrim, Bool.and_eq_true, ← Reading.lex_step ok] at silent
    have marked : ∀ t ∈ (r.step d p).toks, ∀ q ∈ t, gone q.2 = true → muted q.1 = true := by
      intro t mem q inside lost
      rcases Reading.mem_step ok mem with held | ⟨u, rfl, held⟩
      · exact old t held q inside lost
      rcases List.mem_append.mp inside with inside | inside
      · rcases held with rfl | held
        · cases inside
        · exact old u held q inside lost
      · rw [List.mem_singleton.mp inside] at lost ⊢
        exact first lost
    refine ih (Reading.step_ok ok) marked rest (fun t mem => ?_) silent.2
    -- a token that the byte belongs to
    have grown {init : List (List (UInt8 × τ))} {u : List (UInt8 × τ)}
        (toks : (r.step d p).toks = init ++ [u ++ [p]])
        (changed : (r.step d p).toks.map bytes ≠ r.toks.map bytes)
        (was : Trimmable d gone u) (muting : ∀ q ∈ u, gone q.2 = true → muted q.1 = true) :
        Trimmable d gone (u ++ [p]) := by
      have here := silent.1
      rw [Reading.lex_step ok, Bool.or_eq_true, Bool.or_eq_true, decide_eq_true_eq,
        last_step ok toks] at here
      rcases here with (kept | same) | comment
      · exact was.append (by simpa using kept) muting
      · exact absurd same (toks_ne ok changed)
      · exact .inl comment
    rcases Reading.toks_step (d := d) (p := p) ok with
      ⟨-, -, same⟩ | ⟨-, -, pushed⟩ | ⟨-, init, u, was, extended⟩
    · exact before t (same ▸ mem)
    · rcases List.mem_append.mp (pushed ▸ mem) with mem | mem
      · exact before t mem
      · obtain rfl : t = [p] := by simpa using mem
        exact grown (u := []) pushed (by rw [pushed]; simp) (.inr (by simp)) (by simp)
    · rcases List.mem_append.mp (extended ▸ mem) with mem | mem
      · exact before t (by rw [was]; simp [mem])
      · obtain rfl : t = u ++ [p] := by simpa using mem
        have held : u ∈ r.toks := by rw [was]; simp
        exact grown extended (by rw [extended, was]; simp [bytes]) (before u held) (old u held)

theorem blankTrim_of_toks {ps : List (UInt8 × τ)} (ok : r.Ok)
    (blank : ∀ p ∈ ps, gone p.2 = true → muted p.1 = true)
    (after : ∀ t ∈ (readFrom d r ps).toks, Trimmable d gone t) :
    blankTrim d gone r.lex ps = true := by
  induction ps generalizing r with
  | nil => rfl
  | cons p ps ih =>
    obtain ⟨first, rest⟩ := List.forall_mem_cons.mp blank
    rw [blankTrim, Bool.and_eq_true, Bool.or_eq_true, Bool.or_eq_true, decide_eq_true_eq,
      ← Reading.lex_step ok]
    refine ⟨?_, ih (Reading.step_ok ok) rest after⟩
    cases trimmed : gone p.2 with
    | false => exact .inl (.inl rfl)
    | true =>
      -- the token with the byte stays, and is a comment
      have grown {init : List (List (UInt8 × τ))} {u : List (UInt8 × τ)}
          (toks : (r.step d p).toks = init ++ [u ++ [p]]) :
          endsInComment d (r.step d p).lex.last = true := by
        obtain ⟨t, more, eq, pre⟩ := readFrom_keeps (d := d) (Reading.step_ok ok) toks ps
        rw [Reading.lex_step ok, last_step ok toks, bytes_append]
        have mem : t ∈ (readFrom d r (p :: ps)).toks := by
          rw [readFrom_cons, eq]
          simp
        obtain ⟨m, rfl⟩ := pre
        rcases after _ mem with is | left
        · rw [bytes_append, bytes_append, List.append_assoc] at is
          exact comment_of_append (first trimmed) is
        · have clash := left p (by simp)
          rw [trimmed] at clash
          cases clash
      rcases Reading.toks_step (d := d) (p := p) ok with
        ⟨-, -, same⟩ | ⟨-, -, pushed⟩ | ⟨-, init, u, -, extended⟩
      · exact .inl (.inr (by rw [Reading.lex, Reading.lex, same]))
      · exact .inr (grown (u := []) pushed)
      · exact .inr (grown extended)

theorem blankTrim_iff {ps : List (UInt8 × τ)}
    (blank : ∀ p ∈ ps, gone p.2 = true → muted p.1 = true) :
    blankTrim d gone ⟨.gap, []⟩ ps = true ↔ ∀ t ∈ (read d ps).toks, Trimmable d gone t :=
  ⟨toks_of_blankTrim (r := ⟨.gap, []⟩) (.inl rfl) (by simp) blank (by simp),
    blankTrim_of_toks (r := ⟨.gap, []⟩) (.inl rfl) blank⟩

theorem blankTrim_append (l : Lex) (ps qs : List (UInt8 × τ)) :
    blankTrim d gone l (ps ++ qs) =
      (blankTrim d gone l ps && blankTrim d gone (run d l (bytes ps)) qs) := by
  induction ps generalizing l with
  | nil => rfl
  | cons p ps ih =>
    rw [List.cons_append, blankTrim, blankTrim, ih, Bool.and_assoc]
    rfl

theorem not_comment_single (mute : muted b = true) : endsInComment d [b] = false := by
  have hash := muted_ne mute (c := 35) rfl
  have dash := muted_ne mute (c := 45) rfl
  cases d <;> simp [endsInComment, List.isPrefixOf, dashes, hash.symm, dash]

theorem run_front {ps : List (UInt8 × τ)}
    (trimmed : ∀ p ∈ ps, gone p.2 = true ∧ muted p.1 = true)
    (silent : blankTrim d gone ⟨.gap, []⟩ ps = true) :
    run d ⟨.gap, []⟩ (bytes ps) = ⟨.gap, []⟩ := by
  induction ps with
  | nil => rfl
  | cons p ps ih =>
    obtain ⟨⟨first, mute⟩, rest⟩ := List.forall_mem_cons.mp trimmed
    rw [blankTrim, Bool.and_eq_true, first] at silent
    have passed : step d ⟨.gap, []⟩ p.1 = ⟨.gap, []⟩ := by
      rcases fresh_cases d p.1 with ⟨-, eq⟩ | ⟨-, mode, -, eq⟩
      · exact eq _
      · have here := silent.1
        rw [show step d ⟨.gap, []⟩ p.1 = _ from eq _] at here
        have is : endsInComment d [p.1] = true := by simpa [Lex.push, Lex.last] using here
        rw [not_comment_single mute] at is
        cases is
    rw [passed] at silent
    calc run d ⟨.gap, []⟩ (bytes (p :: ps)) = run d (step d ⟨.gap, []⟩ p.1) (bytes ps) := rfl
      _ = ⟨.gap, []⟩ := by rw [passed, ih rest silent.2]

/-- A byte is passed over, is a token of its own or continues the last one. -/
theorem snoc_cases (d : Dialect) (x : GoString) (b : UInt8) :
    (isSpace b = true ∧ lex d (x ++ [b]) = ⟨.gap, tokens d x⟩) ∨
      tokens d (x ++ [b]) = tokens d x ++ [[b]] ∨
      (lex d x).mode ≠ .gap ∧ ∃ init t, tokens d x = init ++ [t] ∧
        tokens d (x ++ [b]) = init ++ [t ++ [b]] := by
  simp only [tokens, lex_snoc]
  rcases step_cases d (lex d x) b with eq | ⟨pending, mode, eq⟩ | ⟨space, eq⟩
  · rcases fresh_cases d b with ⟨space, passed⟩ | ⟨-, mode, -, pushed⟩
    · exact .inl ⟨space, eq.trans (passed _)⟩
    · exact .inr (.inl (by rw [eq, pushed]; rfl))
  · obtain ⟨init, t, held⟩ :=
      (List.eq_nil_or_concat' (lex d x).toks).resolve_left ((lex_ok d x).resolve_left pending)
    exact .inr (.inr ⟨pending, init, t, held, by rw [eq, Lex.extend, held, extendLast_append]⟩)
  · exact .inl ⟨space, eq⟩

theorem step_open_space (opened : l.mode.closed = false) (other : l.mode ≠ .lineComment)
    (space : isSpace b = true) : ∃ mode, step d l b = l.extend b mode := by
  unfold step
  cases point : l.mode with
  | gap | word | param | slash | dash | dollarTag | closing => simp [point, Mode.closed] at opened
  | lineComment => exact absurd point other
  | dashDash =>
    have control : isControl b = true := by
      have range := isSpace_iff.mp space
      simp only [isControl, Bool.or_eq_true, decide_eq_true_eq, UInt8.le_iff_toNat_le]
      exact .inl (by simp; omega)
    exact ⟨_, by rw [stepIn, if_neg (isSpace_ne space rfl), if_pos control]⟩
  | _ => exact ⟨_, rfl⟩

/-- Where a blank byte ends a token or stands between two, so does the end of the text. -/
theorem code_passed {x : GoString} (space : isSpace b = true)
    (passed : lex d (x ++ [b]) = ⟨.gap, tokens d x⟩) : code d (x ++ [b]) = code d x := by
  have whole : code d (x ++ [b]) = significant d (tokens d x) := by
    rw [code, tokens, lex_snoc, passed]
    rfl
  rw [whole, code, tokens, tokens, lex_snoc]
  cases closed : (lex d x).mode.closed with
  | true => rw [step_space closed rfl]
  | false =>
    by_cases line : (lex d x).mode = .lineComment
    · rw [step, line]
      rfl
    · obtain ⟨mode, eq⟩ := step_open_space (d := d) closed line space
      have pending : (lex d x).mode ≠ .gap := by
        intro gap
        rw [gap] at closed
        cases closed
      obtain ⟨init, t, held⟩ :=
        (List.eq_nil_or_concat' (lex d x).toks).resolve_left ((lex_ok d x).resolve_left pending)
      have same : extendLast (lex d x).toks b = (lex d x).toks := by
        rw [lex_snoc, eq] at passed
        exact congrArg Lex.toks passed
      rw [held, extendLast_append] at same
      simp at same

theorem code_last {x : GoString} {init : List GoString} {t : GoString} {n : Nat}
    (toks : tokens d x = init ++ [t])
    (own : tokens d (x ++ [10]) = tokens d x → pieces d t = List.replicate n [45])
    (grown : pieces d (t ++ [10]) = List.replicate n [45]) :
    code d x = significant d init ++ List.replicate n [45] := by
  have single (u : GoString) (eq : pieces d u = List.replicate n [45]) :
      significant d (init ++ [u]) = significant d init ++ List.replicate n [45] := by
    rw [significant_append]
    simp [significant, eq]
  rw [code]
  have kept (same : tokens d (x ++ [10]) = tokens d x) :
      significant d (tokens d (x ++ [10])) = significant d init ++ List.replicate n [45] := by
    rw [same, toks, single t (own same)]
  rcases step_cases d (lex d x) 10 with eq | ⟨-, mode, eq⟩ | ⟨-, eq⟩
  · exact kept (by rw [tokens, lex_snoc, eq]; rfl)
  · rw [tokens, lex_snoc, eq, Lex.extend, ← tokens, toks, extendLast_append]
    exact single _ grown
  · exact kept (by rw [tokens, lex_snoc, eq]; rfl)

theorem comment_of_concat {t : GoString} (some : t ≠ []) (mute : muted b = true)
    (is : endsInComment d (t ++ [b]) = true) :
    endsInComment d t = true ∨
      d = .mysql ∧ 2 ≤ t.length ∧ (∀ c ∈ t, c = 45) ∧ isControl b = true := by
  have star := muted_ne mute (c := 42) rfl
  have dash := muted_ne mute (c := 45) rfl
  have shorter {c e : UInt8} (second : b ≠ e) (starts : [c, e].isPrefixOf (t ++ [b]) = true) :
      [c, e].isPrefixOf t = true := by
    rcases t with - | ⟨a, - | ⟨f, t⟩⟩
    · exact absurd rfl some
    · simp [List.isPrefixOf, second.symm] at starts
    · simpa [List.isPrefixOf] using starts
  cases d with
  | postgres =>
    simp only [endsInComment, Bool.or_eq_true] at is ⊢
    exact .inl (is.imp (shorter star) (shorter dash))
  | mysql =>
    have plain (not : executable (t ++ [b]) = false) : executable t = false := by
      by_contra executed
      have longer := executable_append (by simpa using executed) [b]
      rw [not] at longer
      cases longer
    simp only [endsInComment, Bool.or_eq_true, Bool.and_eq_true, Bool.not_eq_true',
      decide_eq_true_eq] at is ⊢
    rcases is with (⟨block, not⟩ | hash) | ⟨two, control⟩
    · exact .inl (.inl (.inl ⟨shorter star block, plain not⟩))
    · refine .inl (.inl (.inr ?_))
      obtain ⟨a, t, rfl⟩ := List.exists_cons_of_ne_nil some
      simpa [List.isPrefixOf] using hash
    · by_cases other : dashes t < t.length
      · obtain ⟨same, next⟩ := dashes_append other [b]
        rw [next] at control
        exact .inl (.inr ⟨same ▸ two, control⟩)
      · have whole : t.takeWhile (· == 45) = t := by
          refine (List.takeWhile_prefix _).eq_of_length_le ?_
          unfold dashes at other
          omega
        have all : ∀ c ∈ t, c = 45 := by
          intro c mem
          rw [← whole] at mem
          simpa using List.all_eq_true.mp List.all_takeWhile c mem
        rw [dashes_concat all dash] at two control
        exact .inr ⟨trivial, two, all, by simpa using control⟩

theorem dashDash_of_last {x : GoString} {init : List GoString} {t : GoString}
    (toks : tokens .mysql x = init ++ [t]) (pending : (lex .mysql x).mode ≠ .gap)
    (two : 2 ≤ t.length) (all : ∀ c ∈ t, c = 45) : (lex .mysql x).mode = .dashDash := by
  have shaped := lex_shaped x
  have last : (lex .mysql x).last = t := by
    rw [Lex.last, ← tokens, toks]
    simp
  obtain ⟨c, u, rfl⟩ := List.exists_cons_of_length_pos (show 0 < t.length by omega)
  obtain rfl := all c (by simp)
  unfold Lex.Shaped at shaped
  rw [last] at shaped
  have plain : endsInComment .mysql (45 :: u) = false := by
    simp [endsInComment, List.isPrefixOf, dashes_of_all all]
  cases point : (lex .mysql x).mode
  all_goals simp only [point] at shaped
  case dashDash => rfl
  case gap => exact absurd point pending
  case word => cases shaped
  case slash | dash => simp_all
  case quoted q e | closing q e | escaped q =>
    obtain ⟨more, eq⟩ := shaped.1
    cases q <;> simp [Quote.byte] at eq
  case lineComment | block | blockStar =>
    rw [shaped.1] at plain
    cases plain
  case opened maria => cases maria <;> simp at shaped
  case executed => simp [executable, List.isPrefixOf] at shaped

/-- A blank byte that continues a comment leaves the code as it is. -/
theorem code_continued {x : GoString} {init : List GoString} {t : GoString}
    (mute : muted b = true) (pending : (lex d x).mode ≠ .gap) (was : tokens d x = init ++ [t])
    (now : tokens d (x ++ [b]) = init ++ [t ++ [b]])
    (comment : endsInComment d (t ++ [b]) = true) : code d (x ++ [b]) = code d x := by
  -- a comment with more bytes has the operators of the comment
  have longer {u : GoString} {c : UInt8} (is : endsInComment d u = true) (still : muted c = true) :
      pieces d (u ++ [c]) = List.replicate (operators d u) [45] := by
    have grown := comment_append (m := [c]) is (by
      rintro rfl
      exact not_executable_of_muted still (not_executable_of_comment is) [])
    rw [pieces_of_comment grown.1, grown.2]
  have some : t ≠ [] := by
    obtain ⟨c, u, rfl, -⟩ := tokens_head d x t (by rw [was]; simp)
    simp
  rcases comment_of_concat some mute comment with is | ⟨rfl, two, all, control⟩
  · rw [code_last was (fun _ => pieces_of_comment is) (longer is rfl)]
    refine code_last now (fun _ => longer is mute) ?_
    rw [longer comment rfl, ← pieces_of_comment comment, longer is mute]
  · have dashed := dashDash_of_last was pending two all
    have newline := (settled_dashes (b := 10) two all rfl).1
    have extended : step .mysql (lex .mysql x) 10 = (lex .mysql x).extend 10 .gap := by
      rw [step, dashed]
      rfl
    have held : (lex .mysql x).toks = init ++ [t] := was
    have same : operators .mysql (t ++ [10]) = operators .mysql (t ++ [b]) := by
      rw [operators, operators, if_pos newline, if_pos comment, dashes_concat all (by decide),
        dashes_concat all (muted_ne mute rfl)]
    rw [code_last now (fun _ => pieces_of_comment comment) (longer comment rfl), ← same]
    refine (code_last was (fun passed => ?_) (pieces_of_comment newline)).symm
    rw [tokens, tokens, lex_snoc, extended, Lex.extend, held, extendLast_append] at passed
    simp at passed

theorem code_back {x : GoString} {ps : List (UInt8 × τ)}
    (trimmed : ∀ p ∈ ps, gone p.2 = true ∧ muted p.1 = true)
    (silent : blankTrim d gone (lex d x) ps = true) : code d (x ++ bytes ps) = code d x := by
  induction ps generalizing x with
  | nil => rw [bytes, List.map_nil, List.append_nil]
  | cons p ps ih =>
    obtain ⟨⟨first, mute⟩, rest⟩ := List.forall_mem_cons.mp trimmed
    rw [blankTrim, Bool.and_eq_true, first, ← lex_snoc] at silent
    obtain ⟨here, later⟩ := silent
    have here : tokens d (x ++ [p.1]) = tokens d x ∨
        endsInComment d (lex d (x ++ [p.1])).last = true := by simpa [tokens] using here
    have split : x ++ bytes (p :: ps) = (x ++ [p.1]) ++ bytes ps := by simp [bytes]
    rw [split, ih rest later]
    rcases snoc_cases d x p.1 with ⟨space, passed⟩ | pushed | ⟨pending, init, t, was, now⟩
    · exact code_passed space passed
    · rw [Lex.last, ← tokens, pushed] at here
      simp [not_comment_single mute] at here
    · rw [Lex.last, ← tokens, was, now] at here
      exact code_continued mute pending was now (by simpa using here)

end Trimmed

end TQDBProxy.SqlTokens
