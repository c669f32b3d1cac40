import TQDBProxy.SqlLexerModes

/-! The code of a SQL text: its tokens as the database reads them. Comments are dropped, the
dashes of an operator stand alone, and the text inside an executable comment of MySQL is
read in the place of the comment, whatever version the comment names. The end of the text
is read as the end of a line. -/

namespace TQDBProxy.SqlTokens

def dashes (t : GoString) : Nat := (t.takeWhile (· == 45)).length

def executable (t : GoString) : Bool :=
  [47, 42, 33].isPrefixOf t || [47, 42, 77, 33].isPrefixOf t

/-- The token is a comment, in MySQL perhaps after dashes that are operators. -/
def endsInComment (d : Dialect) (t : GoString) : Bool :=
  match d with
  | .mysql => ([47, 42].isPrefixOf t && !executable t) || [35].isPrefixOf t ||
      (2 ≤ dashes t && t[dashes t]?.any isControl)
  | .postgres => [47, 42].isPrefixOf t || [45, 45].isPrefixOf t

/-- The dashes of a token that are operators. -/
def operators (d : Dialect) (t : GoString) : Nat :=
  match d with
  | .mysql => if endsInComment d t then dashes t - 2 else dashes t
  | .postgres => 0

def isComment (d : Dialect) (t : GoString) : Bool := endsInComment d t && operators d t == 0

/-- A token that is no executable comment. -/
def plainPieces (d : Dialect) (t : GoString) : List GoString :=
  List.replicate (operators d t) [45] ++
    if endsInComment d t ∨ operators d t ≠ 0 then [] else [t]

/-- The text of an executable comment, after the version that it may name. -/
def executedText (t : GoString) : GoString :=
  let text := t.drop (if [47, 42, 77].isPrefixOf t then 4 else 3)
  let digits := (text.takeWhile isDigit).length
  if 5 ≤ digits then text.drop (min 6 digits) else text

/-- The code inside an executable comment, where a second opening is passed over. -/
def executedCode : Nat → GoString → List GoString
  | 0, _ => []
  | fuel + 1, s => (tokens .mysql s).flatMap fun t =>
    if executable t then executedCode fuel (executedText t) else plainPieces .mysql t

/-- The code of a token. An executable comment that is left open stays as it is. -/
def pieces (d : Dialect) (t : GoString) : List GoString :=
  if d = .mysql ∧ executable t ∧ (lex .mysql t).mode = .gap then
    executedCode t.length (executedText t.dropLast.dropLast)
  else plainPieces d t

def significant (d : Dialect) (toks : List GoString) : List GoString := toks.flatMap (pieces d)

def code (d : Dialect) (s : GoString) : List GoString := significant d (tokens d (s ++ [10]))

example : code .mysql (lit "SELECT 5--- 1\n+ ? /*!50100 AS a -- b\n, ? */ # c") =
    ["SELECT", "5", "-", "+", "?", "AS", "a", ",", "?"].map lit := by decide +kernel

variable {d : Dialect} {b : UInt8}

theorem significant_append (ts us : List GoString) :
    significant d (ts ++ us) = significant d ts ++ significant d us := List.flatMap_append

theorem not_executable (slash : b ≠ 47) (t : GoString) : executable (b :: t) = false := by
  simp [executable, List.isPrefixOf, slash.symm]

/-- Only dashes, the number sign and the slash start a token that is not code as it stands. -/
theorem pieces_of_head (mark : b ∉ ([35, 45, 47] : GoString)) (t : GoString) :
    pieces d (b :: t) = [b :: t] ∧ isComment d (b :: t) = false := by
  obtain ⟨hash, dash, slash⟩ : b ≠ 35 ∧ b ≠ 45 ∧ b ≠ 47 := by simpa using mark
  have none : dashes (b :: t) = 0 := by simp [dashes, dash]
  have plain : endsInComment d (b :: t) = false := by
    cases d <;>
      simp [endsInComment, none, List.isPrefixOf, hash.symm, dash.symm, slash.symm]
  have alone : operators d (b :: t) = 0 := by cases d <;> simp [operators, none]
  rw [pieces, if_neg (by simp [not_executable slash]), plainPieces, isComment]
  simp [plain, alone]

theorem significant_of_heads {toks : List GoString}
    (heads : ∀ t ∈ toks, ∃ b u, t = b :: u ∧ b ∉ ([35, 45, 47] : GoString)) :
    significant d toks = toks := by
  induction toks with
  | nil => rfl
  | cons t toks ih =>
    rw [List.forall_mem_cons] at heads
    obtain ⟨b, u, rfl, mark⟩ := heads.1
    rw [significant, List.flatMap_cons, (pieces_of_head mark u).1, ← significant, ih heads.2]
    rfl

theorem not_executable_of_comment {t : GoString} (comment : endsInComment .mysql t = true) :
    executable t = false := by
  by_contra executed
  have executed : executable t = true := by simpa using executed
  have slash : ∃ u, t = 47 :: u := by
    simp only [executable, Bool.or_eq_true, List.isPrefixOf_iff_prefix] at executed
    rcases executed with ⟨u, rfl⟩ | ⟨u, rfl⟩ <;> exact ⟨_, rfl⟩
  obtain ⟨u, rfl⟩ := slash
  simp [endsInComment, executed, dashes] at comment

theorem pieces_of_comment {t : GoString} (comment : endsInComment d t = true) :
    pieces d t = List.replicate (operators d t) [45] := by
  rw [pieces, if_neg, plainPieces, if_pos (.inl comment), List.append_nil]
  rintro ⟨rfl, executed, -⟩
  rw [not_executable_of_comment comment] at executed
  cases executed

theorem significant_comment {t : GoString} (comment : isComment d t = true) : pieces d t = [] := by
  obtain ⟨ends, none⟩ : endsInComment d t = true ∧ operators d t = 0 := by
    simpa [isComment] using comment
  rw [pieces_of_comment ends, none]
  rfl

theorem executable_append {t : GoString} (executed : executable t = true) (m : GoString) :
    executable (t ++ m) = true := by
  simp only [executable, Bool.or_eq_true, List.isPrefixOf_iff_prefix] at executed ⊢
  exact executed.imp (·.trans (List.prefix_append ..)) (·.trans (List.prefix_append ..))

/-- Bytes that open no comment. -/
def muted (b : UInt8) : Bool := !([33, 35, 42, 45, 47, 77] : GoString).contains b

theorem muted_ne {c : UInt8} (mute : muted b = true) (other : muted c = false) : b ≠ c := by
  rintro rfl
  rw [mute] at other
  cases other

theorem not_executable_of_muted {x : GoString} (mute : muted b = true)
    (plain : executable x = false) (y : GoString) : executable (x ++ b :: y) = false := by
  have bang := muted_ne mute (c := 33) rfl
  have star := muted_ne mute (c := 42) rfl
  have slash := muted_ne mute (c := 47) rfl
  have letter := muted_ne mute (c := 77) rfl
  rcases x with - | ⟨a, - | ⟨c, - | ⟨e, - | ⟨f, x⟩⟩⟩⟩
  all_goals
    simp [executable, List.isPrefixOf, bang.symm, star.symm, slash.symm, letter.symm] at plain ⊢
  all_goals simp_all

theorem dashes_of_all {t : GoString} (all : ∀ c ∈ t, c = 45) : dashes t = t.length := by
  induction t with
  | nil => rfl
  | cons c t ih =>
    rw [List.forall_mem_cons] at all
    obtain ⟨rfl, all⟩ := all
    simpa [dashes] using ih all

theorem dashes_concat {t : GoString} (all : ∀ c ∈ t, c = 45) (other : b ≠ 45) :
    dashes (t ++ [b]) = t.length := by
  rw [dashes, List.takeWhile_append_of_pos (by simpa using all)]
  simp [other]

theorem dashes_append {t : GoString} (other : dashes t < t.length) (m : GoString) :
    dashes (t ++ m) = dashes t ∧ (t ++ m)[dashes (t ++ m)]? = t[dashes t]? := by
  have same : dashes (t ++ m) = dashes t := by
    unfold dashes at other ⊢
    rw [List.takeWhile_append, if_neg]
    omega
  exact ⟨same, by rw [same, List.getElem?_append_left other]⟩

theorem comment_append {t m : GoString} (is : endsInComment d t = true)
    (plain : d = .mysql → executable (t ++ m) = false) :
    endsInComment d (t ++ m) = true ∧ operators d (t ++ m) = operators d t := by
  have longer {pre : GoString} (starts : pre.isPrefixOf t = true) :
      pre.isPrefixOf (t ++ m) = true := by
    rw [List.isPrefixOf_iff_prefix] at starts ⊢
    exact starts.trans (List.prefix_append ..)
  cases d with
  | postgres =>
    simp only [endsInComment, Bool.or_eq_true] at is
    exact ⟨by simpa [endsInComment] using is.imp longer longer, rfl⟩
  | mysql =>
    have plain := plain rfl
    have grown (ends : endsInComment .mysql (t ++ m) = true) (same : dashes (t ++ m) = dashes t) :
        endsInComment .mysql (t ++ m) = true ∧ operators .mysql (t ++ m) = operators .mysql t := by
      refine ⟨ends, ?_⟩
      rw [operators, operators, if_pos ends, if_pos is, same]
    have start {b : UInt8} {u : GoString} (eq : t = b :: u) (dash : b ≠ 45) :
        dashes (t ++ m) = dashes t := by simp [eq, dashes, dash]
    have whole := is
    simp only [endsInComment, Bool.or_eq_true, Bool.and_eq_true, Bool.not_eq_true',
      decide_eq_true_eq] at whole
    rcases whole with (⟨block, -⟩ | hash) | ⟨two, control⟩
    · obtain ⟨u, eq⟩ := List.isPrefixOf_iff_prefix.mp block
      exact grown (by simp [endsInComment, longer block, plain]) (start eq.symm (by decide))
    · obtain ⟨u, eq⟩ := List.isPrefixOf_iff_prefix.mp hash
      exact grown (by simp [endsInComment, longer hash]) (start eq.symm (by decide))
    · have other : dashes t < t.length := by
        by_contra all
        rw [List.getElem?_eq_none (by omega)] at control
        cases control
      obtain ⟨same, next⟩ := dashes_append other m
      refine grown ?_ same
      simp only [endsInComment, next, control, Bool.and_true, Bool.or_eq_true, decide_eq_true_eq]
      exact .inr (same ▸ two)

theorem comment_of_append {t m : GoString} (mute : muted b = true)
    (is : endsInComment d (t ++ b :: m) = true) : endsInComment d (t ++ [b]) = true := by
  have hash := muted_ne mute (c := 35) rfl
  have star := muted_ne mute (c := 42) rfl
  have dash := muted_ne mute (c := 45) rfl
  have slash := muted_ne mute (c := 47) rfl
  have shorter {c e : UInt8} (first : b ≠ c) (second : b ≠ e)
      (starts : [c, e].isPrefixOf (t ++ b :: m) = true) : [c, e].isPrefixOf (t ++ [b]) = true := by
    rcases t with - | ⟨a, - | ⟨f, t⟩⟩
    · simp [List.isPrefixOf, first.symm] at starts
    · simp [List.isPrefixOf, second.symm] at starts
    · simpa [List.isPrefixOf] using starts
  cases d with
  | postgres =>
    simp only [endsInComment, Bool.or_eq_true] at is ⊢
    exact is.imp (shorter slash star) (shorter dash dash)
  | mysql =>
    simp only [endsInComment, Bool.or_eq_true, Bool.and_eq_true, Bool.not_eq_true',
      decide_eq_true_eq] at is ⊢
    refine is.imp (Or.imp (fun block => ⟨shorter slash star block.1, ?_⟩) fun mark => ?_)
      fun comment => ?_
    · by_contra executed
      have longer := executable_append (by simpa using executed) m
      rw [List.append_assoc, List.singleton_append, block.2] at longer
      cases longer
    · cases t with
      | nil => simp [List.isPrefixOf, hash.symm] at mark
      | cons a t => simpa [List.isPrefixOf] using mark
    · have other : dashes (t ++ [b]) < (t ++ [b]).length := by
        have short : dashes (t ++ [b]) ≤ t.length := by
          unfold dashes
          rw [List.takeWhile_append]
          split_ifs
          · simp [dash]
          · exact (List.takeWhile_sublist _).length_le
        simp
        omega
      obtain ⟨same, next⟩ := dashes_append other m
      rw [List.append_assoc, List.singleton_append] at same next
      rwa [next, same] at comment

theorem mem_significant_postgres {toks : List GoString} {t : GoString}
    (mem : t ∈ significant .postgres toks) : t ∈ toks := by
  obtain ⟨u, inside, piece⟩ := List.mem_flatMap.mp mem
  have own : t ∈ if endsInComment .postgres u = true then [] else [u] := by
    simpa [pieces, plainPieces, operators] using piece
  split_ifs at own
  · cases own
  · exact List.mem_singleton.mp own ▸ inside

theorem tokens_apart {x : GoString} (apart : step d (lex d x) b = fresh d (lex d x) b)
    (y : GoString) : tokens d (x ++ b :: y) = tokens d x ++ tokens d (b :: y) := by
  have start : fresh d (lex d x) b = step d ⟨.gap, tokens d x⟩ b := by
    rcases fresh_cases d b with ⟨-, eq⟩ | ⟨-, mode, -, eq⟩
    · exact (eq _).trans (eq ⟨.gap, tokens d x⟩).symm
    · exact (eq _).trans (eq ⟨.gap, tokens d x⟩).symm
  rw [tokens, lex_append, run_cons, apart, start, ← run_cons, run_gap]

theorem code_apart {x : GoString} (apart : step d (lex d x) b = fresh d (lex d x) b)
    (y : GoString) : code d (x ++ b :: y) = significant d (tokens d x) ++ code d (b :: y) := by
  rw [code, List.append_assoc, List.cons_append, tokens_apart apart, significant_append]
  rfl

theorem code_gap {x : GoString} (gap : (lex d x).mode = .gap) (y : GoString) :
    code d (x ++ y) = significant d (tokens d x) ++ code d y := by
  rw [code, List.append_assoc, tokens, lex_append, show lex d x = ⟨.gap, tokens d x⟩ by
    rw [← gap]; rfl, run_gap, significant_append]
  rfl

theorem code_closed {x : GoString} (closed : (lex d x).mode.closed = true) :
    code d x = significant d (tokens d x) := by
  rw [code, tokens, lex_snoc, step_space closed rfl]
  rfl

/-! ### The pending token of a mode, in MySQL -/

/-- A comment, and no longer the beginning of an executable one. -/
def Settled (t : GoString) : Prop :=
  endsInComment .mysql t = true ∧ ∀ m, executable (t ++ m) = false

/-- What is pending in a mode. Names in back quotes know no escapes. -/
def Lex.Shaped (l : Lex) : Prop :=
  match l.mode with
  | .gap => True
  | .word => l.last.head?.any wordByte = true
  | .slash => l.last = [47]
  | .dash => l.last = [45]
  | .dashDash => 2 ≤ l.last.length ∧ ∀ b ∈ l.last, b = 45
  | .quoted q e | .closing q e => [q.byte] <+: l.last ∧ (e = true ↔ q ≠ .back)
  | .escaped q => [q.byte] <+: l.last ∧ q ≠ .back
  | .lineComment | .block _ | .blockStar _ => Settled l.last
  | .opened maria => l.last = if maria then [47, 42, 77] else [47, 42]
  | .executed _ _ => executable l.last = true
  | .param | .dollarTag | .blockSlash _ | .dollar _ => False

theorem Lex.Shaped.ite {c : Prop} [Decidable c] {l l' : Lex} (holds : c → l.Shaped)
    (other : l'.Shaped) : (if c then l else l').Shaped := by
  split
  · exact holds ‹c›
  · exact other

variable {l : Lex}

theorem settled_head (mark : b = 35 ∨ b = 45) {t : GoString}
    (is : endsInComment .mysql (b :: t) = true) : Settled (b :: t) := by
  refine ⟨is, fun m => not_executable ?_ _⟩
  rcases mark with rfl | rfl <;> decide

theorem Settled.append {t : GoString} (settled : Settled t) (m : GoString) : Settled (t ++ m) := by
  refine ⟨(comment_append settled.1 fun _ => settled.2 m).1, fun m' => ?_⟩
  rw [List.append_assoc]
  exact settled.2 (m ++ m')

theorem settled_dashes {t : GoString} (two : 2 ≤ t.length) (all : ∀ c ∈ t, c = 45)
    (control : isControl b = true) : Settled (t ++ [b]) := by
  have other : b ≠ 45 := by
    rintro rfl
    cases control
  have count := dashes_concat all other
  obtain ⟨c, u, rfl⟩ := List.exists_cons_of_length_pos (show 0 < t.length by omega)
  have is : endsInComment .mysql (c :: u ++ [b]) = true := by
    simp only [endsInComment, count, List.getElem?_concat_length, Option.any_some, control,
      Bool.and_true, Bool.or_eq_true, decide_eq_true_eq]
    exact .inr two
  exact settled_head (.inr (all c (by simp))) is

theorem fresh_shaped : (fresh .mysql l b).Shaped := by
  have last (mode : Mode) : (l.push b mode).last = [b] := by simp [Lex.push, Lex.last]
  have quoted (q : Quote) (e : Bool) (mark : b = q.byte) (escapes : e = true ↔ q ≠ .back) :
      (l.push b (.quoted q e)).Shaped := by
    refine ⟨?_, escapes⟩
    rw [last, mark]
  unfold fresh
  refine .ite (fun space => trivial) ?_
  refine .ite (fun single => quoted _ _ single (by decide)) ?_
  refine .ite (fun double => quoted _ _ double (by decide)) ?_
  refine .ite (fun back => quoted _ _ back.1 (by decide)) ?_
  refine .ite (fun slash => (last _).trans (by rw [slash])) ?_
  refine .ite (fun dash => (last _).trans (by rw [dash])) ?_
  refine .ite (fun hash => ?_) ?_
  · change Settled _
    rw [last, hash.1]
    exact settled_head (.inl rfl) rfl
  refine .ite (fun dollar => absurd dollar.2 (by decide)) ?_
  refine .ite (fun word => ?_) trivial
  change Option.any wordByte (Lex.last _).head? = true
  rw [last]
  exact word

theorem step_shaped (shaped : l.Shaped) : (step .mysql l b).Shaped := by
  have grown (mode : Mode) {t : GoString} (pre : t <+: l.last) : t <+: (l.extend b mode).last := by
    rw [last_extend]
    exact pre.trans (List.prefix_append ..)
  have commented (mode : Mode) (settled : Settled l.last) : Settled (l.extend b mode).last := by
    rw [last_extend]
    exact settled.append [b]
  unfold step
  unfold Lex.Shaped at shaped
  cases point : l.mode
  all_goals simp only [point] at shaped
  all_goals simp only [stepIn]
  case gap => exact fresh_shaped
  case word =>
    split_ifs with word quote
    · change Option.any wordByte (Lex.last _).head? = true
      rw [last_extend, List.head?_append]
      cases head : l.last.head? with
      | none => simp [head] at shaped
      | some c => simpa [head] using shaped
    · exact absurd quote.2.1 (by decide)
    · exact fresh_shaped
  case slash =>
    split_ifs with star
    · change Lex.last (Lex.extend _ b _) = _
      rw [last_extend, shaped, star]
      rfl
    · exact fresh_shaped
  case dash =>
    split_ifs with dash
    · change 2 ≤ (Lex.last (Lex.extend _ b _)).length ∧ _
      rw [last_extend, shaped, dash]
      exact ⟨le_rfl, by simp⟩
    · exact fresh_shaped
  case closing q e =>
    split_ifs with quote
    · exact ⟨grown _ shaped.1, shaped.2⟩
    · exact fresh_shaped
  case dashDash =>
    split_ifs with dash control newline
    · change 2 ≤ (Lex.last (Lex.extend _ b _)).length ∧ ∀ c ∈ Lex.last (Lex.extend _ b _), c = 45
      rw [last_extend, List.length_append]
      refine ⟨by omega, fun c mem => ?_⟩
      rcases List.mem_append.mp mem with mem | mem
      · exact shaped.2 c mem
      · rw [List.mem_singleton.mp mem, dash]
    · trivial
    · change Settled _
      rw [last_extend]
      exact settled_dashes shaped.1 shaped.2 control
    · exact fresh_shaped
  case quoted q e =>
    split_ifs with backslash quote
    · exact ⟨grown _ shaped.1, shaped.2.mp backslash.2⟩
    · exact ⟨grown _ shaped.1, shaped.2⟩
    · exact ⟨grown _ shaped.1, shaped.2⟩
  case escaped q => exact ⟨grown _ shaped.1, by simp [shaped.2]⟩
  case lineComment =>
    split_ifs
    · trivial
    · exact commented _ shaped
  case block n =>
    split_ifs with star slash
    · exact commented _ shaped
    · exact absurd slash.2 (by decide)
    · exact commented _ shaped
  case blockStar n =>
    split_ifs
    · cases n with
      | zero => trivial
      | succ n => exact commented _ shaped
    · exact commented _ shaped
    · exact commented _ shaped
  case opened maria =>
    have settled (bang : b ≠ 33) (letter : maria = true ∨ b ≠ 77) : Settled (l.last ++ [b]) := by
      rw [shaped]
      cases maria with
      | true => simp [Settled, endsInComment, executable, List.isPrefixOf, bang.symm]
      | false =>
        have other : 77 ≠ b := (letter.resolve_left (by simp)).symm
        simp [Settled, endsInComment, executable, List.isPrefixOf, bang.symm, other]
    split_ifs with bang letter star
    · change executable _ = true
      rw [last_extend, shaped, bang]
      cases maria <;> rfl
    · obtain rfl : maria = false := by simpa using letter.2
      change Lex.last (Lex.extend _ b _) = _
      rw [last_extend, shaped, letter.1]
      rfl
    · change Settled _
      rw [last_extend]
      exact settled bang (.inr (by rw [star]; decide))
    · change Settled _
      rw [last_extend]
      refine settled bang ?_
      by_contra other
      push Not at other
      exact letter ⟨other.2, by simpa using other.1⟩
  case executed inner star =>
    have next : executable (l.extend b (.executed inner star)).last = true := by
      rw [last_extend]
      exact executable_append shaped [b]
    unfold executing
    split_ifs
    · trivial
    · split <;> exact next

theorem lex_shaped (s : GoString) : (lex .mysql s).Shaped := by
  induction s using List.reverseRecOn with
  | nil => trivial
  | append_singleton s b ih =>
    rw [lex_snoc]
    exact step_shaped ih

end TQDBProxy.SqlTokens
