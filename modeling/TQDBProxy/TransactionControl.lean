import TQDBProxy.SqlCode

/-! Which SQL statements start and end a transaction, over the code of a
text. A text may hold several statements; a backend executes a first part of
them. -/

namespace TQDBProxy.SqlTokens

def splitStatements : List GoString → List (List GoString)
  | [] => [[]]
  | t :: rest =>
    if t = [59] then [] :: splitStatements rest
    else
      match splitStatements rest with
      | statement :: later => (t :: statement) :: later
      | [] => [[t]]

def statements (d : Dialect) (text : GoString) : List (List GoString) :=
  (splitStatements (code d text)).filter (!·.isEmpty)

def chains : List GoString → Bool
  | a :: b :: rest =>
    (isKeyword (lit "AND") a && isKeyword (lit "CHAIN") b) || chains (b :: rest)
  | _ => false

def endKeyword (t : GoString) : Bool :=
  isKeyword (lit "COMMIT") t || isKeyword (lit "END") t || isKeyword (lit "ROLLBACK") t

def startsTransaction (d : Dialect) : List GoString → Bool
  | [] => false
  | t :: rest =>
    (isKeyword (lit "BEGIN") t &&
      (d == .postgres || rest.isEmpty ||
        (rest.length == 1 && rest.all (isKeyword (lit "WORK"))))) ||
    (isKeyword (lit "START") t && rest.head?.any (isKeyword (lit "TRANSACTION"))) ||
    (endKeyword t && chains rest)

/-- ROLLBACK TO a savepoint and the two-phase forms leave the transaction open. -/
def endsTransaction : List GoString → Bool
  | [] => false
  | t :: rest =>
    endKeyword t && !chains rest && !rest.any (isKeyword (lit "TO")) &&
      !rest.any (isKeyword (lit "PREPARED"))

def afterStatement (d : Dialect) (opened : Bool) (statement : List GoString) : Bool :=
  if startsTransaction d statement then true
  else if endsTransaction statement then false else opened

/-- Whether a session has an open transaction after the first `executed`
statements of a text. -/
def openAfter (d : Dialect) (opened : Bool) (text : GoString) (executed : Nat) : Bool :=
  ((statements d text).take executed).foldl (afterStatement d) opened

def noStart (d : Dialect) (text : GoString) : Bool :=
  (statements d text).all (!startsTransaction d ·)

theorem openAfter_of_noStart {d : Dialect} {opened : Bool} {text : GoString} {executed : Nat}
    (none : noStart d text = true) (after : openAfter d opened text executed = true) :
    opened = true := by
  have started : ∀ statement ∈ (statements d text).take executed, startsTransaction d statement =
      false := by
    intro statement mem
    simpa using List.all_eq_true.mp none statement (List.mem_of_mem_take mem)
  unfold openAfter at after
  generalize (statements d text).take executed = first at started after
  induction first generalizing opened with
  | nil => exact after
  | cons statement later ih =>
    have kept := ih (fun st mem => started st (List.mem_cons_of_mem _ mem)) after
    rw [afterStatement, started statement List.mem_cons_self] at kept
    simp only [Bool.false_eq_true, if_false] at kept
    split_ifs at kept
    exact kept

theorem tokens_lead {d : Dialect} {front : GoString} {t u : GoString}
    (two : tokens d front = [t, u]) (rest : GoString) :
      ∃ u' more, tokens d (front ++ rest) = t :: u' :: more := by
  have held : (lex d front).toks = [t] ++ [u] := two
  obtain ⟨u', more, toks, -⟩ := run_keeps (d := d) (lex_ok d front) held rest
  refine ⟨u', more, ?_⟩
  rw [tokens, lex_append, toks]
  rfl

theorem code_lead {d : Dialect} {front : GoString} {b : UInt8} {t u : GoString}
    (two : tokens d front = [b :: t, u]) (mark : b ∉ ([35, 45, 47] : GoString)) (rest : GoString) :
    ∃ more, code d (front ++ rest) = (b :: t) :: more := by
  obtain ⟨u', more, whole⟩ := tokens_lead two (rest ++ [10])
  refine ⟨significant d (u' :: more), ?_⟩
  rw [code, List.append_assoc, whole, significant, List.flatMap_cons, (pieces_of_head mark t).1]
  rfl

theorem statements_lead {d : Dialect} {front : GoString} {b : UInt8} {t u : GoString}
    (two : tokens d front = [b :: t, u]) (mark : b ∉ ([35, 45, 47, 59] : GoString))
    (rest : GoString) :
    ∃ statement later, statements d (front ++ rest) = ((b :: t) :: statement) :: later := by
  have marks : b ∉ ([35, 45, 47] : GoString) ∧ b ≠ 59 := by simp_all
  obtain ⟨more, whole⟩ := code_lead two marks.1 rest
  rw [statements, whole, splitStatements, if_neg fun same => marks.2 (List.cons.inj same).1]
  cases splitStatements more with
  | nil => exact ⟨_, _, rfl⟩
  | cons statement later => exact ⟨statement, _, rfl⟩

end TQDBProxy.SqlTokens
