import Mathlib.Data.List.DropRight
import Mathlib.Data.Set.Basic
import TQDBProxy.InsertTuples
import TQDBProxy.WriteBatchExecutor

/-! The combined DELETE of a batch and what it should preserve. A statement with its
arguments is read from its tokens as the deletion of the rows in which a column has one
of some values. -/

namespace TQDBProxy.WriteBatch

open SqlTokens ListCopies

inductive Condition where
  | equals (v : Value)
  | among (vs : List Value)
  deriving DecidableEq

def Condition.values : Condition → List Value
  | .equals v => [v]
  | .among vs => vs

/-- The tokens before WHERE, the column, and what is asked of it. -/
structure Deletion where
  base : List GoString
  column : List GoString
  condition : Condition
  deriving DecidableEq

/-- The rows that are deleted, where `holds base column v` are the rows of the tables of
`base` whose column is equal to the value. -/
def Deletion.rows {ρ : Type} (holds : List GoString → List GoString → Value → Set ρ)
    (D : Deletion) : Set ρ :=
  {r | ∃ v ∈ D.condition.values, r ∈ holds D.base D.column v}

/-- The code of a statement without the semicolons at its end. -/
def body (d : Dialect) (text : GoString) : List GoString :=
  (code d text).rdropWhile (· = [59])

/-- The tokens before the first WHERE outside parentheses, and those after it. -/
def splitWhere : Nat → List GoString → Option (List GoString × List GoString)
  | _, [] => none
  | depth, t :: rest =>
    if depth = 0 ∧ isKeyword (lit "WHERE") t then some ([], rest)
    else (splitWhere (parenDepth depth t) rest).map fun (base, clause) => (t :: base, clause)

/-- A word that does not start like a number or a placeholder, or a quoted name. -/
def isName (d : Dialect) : GoString → Bool
  | [] => false
  | b :: _ =>
    isLetter b || b == 95 || 128 ≤ b ||
      match d with
      | .mysql => b == 96
      | .postgres => b == 34

def columnRef (d : Dialect) : List GoString → Option (List GoString × List GoString)
  | [] => none
  | [t] => if isName d t then some ([t], []) else none
  | t :: dot :: rest =>
    if isName d t then
      if dot = [46] then (columnRef d rest).map fun (column, after) => (t :: dot :: column, after)
      else some ([t], dot :: rest)
    else none

def listed (d : Dialect) : List GoString → Option (List GoString)
  | [] | [_] => none
  | [p, e] => if isPlaceholder d p ∧ e = [41] then some [p] else none
  | p :: c :: rest =>
    if isPlaceholder d p ∧ c = [44] then (listed d rest).map (p :: ·) else none

def boundValues (d : Dialect) (args : List Value) : Nat → List GoString → Option (List Value)
  | _, [] => some []
  | i, p :: rest =>
    match args[argPosition d i p]?, boundValues d args (i + 1) rest with
    | some v, some vs => some (v :: vs)
    | _, _ => none

def readCondition (d : Dialect) (args : List Value) : List GoString → Option Condition
  | [t, p] =>
    if t = [61] ∧ isPlaceholder d p then args[argPosition d 0 p]?.map .equals else none
  | t :: o :: rest =>
    if isKeyword (lit "IN") t ∧ o = [40] then
      match listed d rest with
      | some marks => (boundValues d args 0 marks).map .among
      | none => none
    else none
  | _ => none

/-- None where a statement is not a deletion by one condition on a column, something is open
at its end, or the arguments are not as many as it takes. -/
def deletion (d : Dialect) (text : GoString) (args : List Value) : Option Deletion :=
  if (lex d text).mode.closed = false ∨ args.length ≠ arity d (body d text) then none
  else
    match splitWhere 0 (body d text) with
    | none => none
    | some (base, clause) =>
      if base.any (isPlaceholder d) then none
      else
        match columnRef d clause with
        | none => none
        | some (column, rest) => (readCondition d args rest).map fun c => ⟨base, column, c⟩

/-- The statement of every request is one equality, and the combined statement deletes
the rows that one of them deletes. -/
def DeletePreserved (d : Dialect) (b : Batch) : Prop :=
  ∃ text args combined, ∃ parts : List Deletion,
    batchedDelete b = some (text, args) ∧ deletion d text args = some combined ∧
    b.requests.map (fun req => deletion d req.query req.params) = parts.map some ∧
    (∀ part ∈ parts, ∃ v, part.condition = .equals v) ∧
    ∀ (ρ : Type) (holds : List GoString → List GoString → Value → Set ρ),
      combined.rows holds = {r | ∃ part ∈ parts, r ∈ part.rows holds}

/-- What the code keeps of a statement: the text before its equality sign, trimmed and
with the keyword in capital letters. -/
def keptText (query : GoString) : Option GoString := do
  let whereIdx ← Strings.index (Strings.toUpper query) (lit " WHERE ")
  let whereClause ← Strings.sliceFrom query (whereIdx + 7)
  let baseQuery ← Strings.sliceTo query whereIdx
  some (baseQuery ++ lit " WHERE " ++ Strings.trimSpace ((Strings.split whereClause 61).headD []))

/-- The tokens are those of a base without placeholders, WHERE and a column. -/
def Selects (d : Dialect) (base column toks : List GoString) : Prop :=
  splitWhere 0 toks = some (base, column) ∧ base.any (isPlaceholder d) = false ∧
    columnRef d column = some (column, [])

instance (d : Dialect) (base column toks : List GoString) :
    Decidable (Selects d base column toks) :=
  inferInstanceAs (Decidable (_ ∧ _ ∧ _))

/-- The WHERE clause is a column, an equality sign and a placeholder, every request has one
parameter, and the code keeps all before the sign. -/
def DeleteSafe (d : Dialect) (b : Batch) : Prop :=
  d = .mysql ∧ (∀ params ∈ b.paramLists, params.length = 1) ∧
    (lex d b.first.query).mode.closed = true ∧
    ∃ base column front kept,
      body d b.first.query = front ++ [[61], [63]] ∧ Selects d base column front ∧
      keptText b.first.query = some kept ∧ (lex d kept).mode.closed = true ∧
      Selects d base column (code d kept)

variable {d : Dialect} {toks base clause column rest : List GoString} {args : List Value}

theorem splitWhere_whole {depth : Nat} (split : splitWhere depth toks = some (base, clause)) :
    ∃ keyword, isKeyword (lit "WHERE") keyword = true ∧ toks = base ++ keyword :: clause ∧
      ∀ other, splitWhere depth (base ++ keyword :: other) = some (base, other) := by
  induction toks generalizing depth base with
  | nil => simp [splitWhere] at split
  | cons t toks ih =>
    rw [splitWhere] at split
    split_ifs at split with found
    · obtain ⟨rfl, rfl⟩ : [] = base ∧ toks = clause := by simpa using split
      exact ⟨t, found.2, rfl, fun other => by simp [splitWhere, found.1, found.2]⟩
    · obtain ⟨⟨front, after⟩, inner, eq⟩ := Option.map_eq_some_iff.mp split
      obtain ⟨rfl, rfl⟩ : t :: front = base ∧ after = clause := by simpa using eq
      obtain ⟨keyword, is, rfl, again⟩ := ih inner
      refine ⟨keyword, is, rfl, fun other => ?_⟩
      rw [List.cons_append, splitWhere, if_neg found, again other]
      rfl

theorem columnRef_name {t : GoString} {other : List GoString} (name : isName d t = true)
    (apart : other.head? ≠ some [46]) : columnRef d (t :: other) = some ([t], other) := by
  cases other with
  | nil => simp [columnRef, name]
  | cons u other =>
    have dot : u ≠ [46] := by simpa using apart
    simp [columnRef, name, dot]

theorem columnRef_whole (read : columnRef d toks = some (column, rest)) :
    toks = column ++ rest ∧
      ∀ other, other.head? ≠ some [46] → columnRef d (column ++ other) = some (column, other) := by
  fun_induction columnRef d toks generalizing column with
  | case1 | case3 | case6 => cases read
  | case2 t name =>
    obtain ⟨rfl, rfl⟩ : [t] = column ∧ [] = rest := by simpa using read
    exact ⟨rfl, fun other apart => columnRef_name name apart⟩
  | case4 t toks name ih =>
    obtain ⟨⟨inner, after⟩, found, eq⟩ := Option.map_eq_some_iff.mp read
    obtain ⟨rfl, rfl⟩ : t :: [46] :: inner = column ∧ after = rest := by simpa using eq
    obtain ⟨rfl, again⟩ := ih found
    refine ⟨rfl, fun other apart => ?_⟩
    rw [List.cons_append, List.cons_append, columnRef, if_pos name, if_pos rfl, again other apart]
    rfl
  | case5 t dot toks name =>
    obtain ⟨rfl, rfl⟩ : [t] = column ∧ dot :: toks = rest := by simpa using read
    exact ⟨rfl, fun other apart => columnRef_name name apart⟩

theorem name_not_placeholder {t : GoString} (name : isName d t = true) :
    isPlaceholder d t = false := by
  by_contra mark
  obtain ⟨_, rest, rfl, rfl | rfl⟩ := isPlaceholder_head (by simpa using mark)
  · cases d <;> exact absurd name Bool.false_ne_true
  · cases d <;> exact absurd name Bool.false_ne_true

theorem where_not_placeholder {t : GoString} (keyword : isKeyword (lit "WHERE") t = true) :
    isPlaceholder d t = false := by
  by_contra mark
  have letters : t.map Strings.upperByte = 87 :: lit "HERE" := by
    simpa [isKeyword, show lit "WHERE" = 87 :: lit "HERE" by decide] using keyword
  obtain ⟨_, rest, rfl, rfl | rfl⟩ := isPlaceholder_head (by simpa using mark)
  · exact absurd (List.cons.inj letters).1 (by decide)
  · exact absurd (List.cons.inj letters).1 (by decide)

theorem column_plain (read : columnRef d toks = some (column, rest)) :
    ∀ t ∈ column, isPlaceholder d t = false := by
  fun_induction columnRef d toks generalizing column with
  | case1 | case3 | case6 => cases read
  | case2 t name =>
    obtain ⟨rfl, -⟩ : [t] = column ∧ [] = rest := by simpa using read
    simpa using name_not_placeholder name
  | case4 t toks name ih =>
    obtain ⟨⟨inner, after⟩, found, eq⟩ := Option.map_eq_some_iff.mp read
    obtain ⟨rfl, rfl⟩ : t :: [46] :: inner = column ∧ after = rest := by simpa using eq
    have dot : isPlaceholder d [46] = false := by cases d <;> decide
    simpa [name_not_placeholder name, dot] using ih found
  | case5 t dot toks name =>
    obtain ⟨rfl, -⟩ : [t] = column ∧ dot :: toks = rest := by simpa using read
    simpa using name_not_placeholder name

theorem listed_whole {marks : List GoString} (read : listed d toks = some marks) :
    marks ≠ [] ∧ (∀ p ∈ marks, isPlaceholder d p = true) ∧
      toks = joinWith [[44]] (marks.map fun p => [p]) ++ [[41]] := by
  fun_induction listed d toks generalizing marks with
  | case1 | case2 | case4 | case6 => cases read
  | case3 p e mark =>
    obtain ⟨mark, rfl⟩ := mark
    obtain rfl : [p] = marks := by simpa using read
    exact ⟨by simp, by simpa using mark, rfl⟩
  | case5 p c rest _ mark ih =>
    obtain ⟨mark, rfl⟩ := mark
    obtain ⟨others, found, rfl⟩ := Option.map_eq_some_iff.mp read
    obtain ⟨some, all, rfl⟩ := ih found
    refine ⟨by simp, by simpa [mark] using all, ?_⟩
    rw [List.map_cons, joinWith_cons (by simpa using some)]
    simp

theorem listed_marks {marks : List GoString} (some : marks ≠ [])
    (all : ∀ p ∈ marks, isPlaceholder d p = true) :
    listed d (joinWith [[44]] (marks.map fun p => [p]) ++ [[41]]) = Option.some marks := by
  induction marks with
  | nil => exact absurd rfl some
  | cons p marks ih =>
    have mark := all p (by simp)
    cases marks with
    | nil => simp [joinWith, listed, mark]
    | cons q marks =>
      have rest := ih (by simp) fun p mem => all p (List.mem_cons_of_mem _ mem)
      rw [List.map_cons, joinWith_cons (by simp), List.append_assoc, List.append_assoc,
        List.singleton_append, List.singleton_append, listed, rest]
      · simp [mark]
      · simp

theorem readCondition_head {c : Condition} (read : readCondition d args rest = some c) :
    rest.head? ≠ some [46] := by
  unfold readCondition at read
  split at read
  · split_ifs at read with sign
    simp [sign.1]
  · split_ifs at read with keyword
    intro dot
    rw [List.head?_cons, Option.some.injEq] at dot
    rw [dot] at keyword
    exact absurd keyword.1 (by decide)
  · cases read

theorem readCondition_cases {c : Condition} (read : readCondition d args rest = some c) :
    (∃ p v, rest = [[61], p] ∧ isPlaceholder d p = true ∧ c = .equals v) ∨
      ∃ keyword marks, rest = keyword :: tuple [44] [40] [41] marks ∧ marks ≠ [] ∧
        (∀ p ∈ marks, isPlaceholder d p = true) ∧ ∃ vs, c = .among vs := by
  unfold readCondition at read
  split at read
  · rename_i t p
    split_ifs at read with sign
    obtain ⟨v, -, rfl⟩ := Option.map_eq_some_iff.mp read
    exact .inl ⟨p, v, by rw [sign.1], sign.2, rfl⟩
  · rename_i t o items _
    split_ifs at read with keyword
    split at read
    · rename_i marks found
      obtain ⟨vs, -, rfl⟩ := Option.map_eq_some_iff.mp read
      obtain ⟨some, all, rfl⟩ := listed_whole found
      exact .inr ⟨t, marks, by rw [keyword.2]; rfl, some, all, vs, rfl⟩
    · cases read
  · cases read

theorem Selects.plain {front : List GoString} (selects : Selects d base column front) :
    ∀ t ∈ front, isPlaceholder d t = false := by
  obtain ⟨split, plain, found⟩ := selects
  obtain ⟨keyword, is, rfl, -⟩ := splitWhere_whole split
  intro t mem
  rcases List.mem_append.mp mem with mem | mem
  · simpa using List.any_eq_false.mp plain t mem
  rcases List.mem_cons.mp mem with rfl | mem
  · exact where_not_placeholder is
  · exact column_plain found t mem

theorem deletion_iff {text : GoString} {c : Condition} :
    deletion d text args = some ⟨base, column, c⟩ ↔
      (lex d text).mode.closed = true ∧ args.length = arity d (body d text) ∧
        ∃ front rest, body d text = front ++ rest ∧
          Selects d base column front ∧ readCondition d args rest = some c := by
  constructor
  · intro read
    unfold deletion at read
    split_ifs at read with unread
    obtain ⟨closed, count⟩ := not_or.mp unread
    refine ⟨by simpa using closed, not_not.mp count, ?_⟩
    split at read
    · cases read
    rename_i base' clause split
    split_ifs at read with plain
    split at read
    · cases read
    rename_i column' rest found
    obtain ⟨c', condition, eq⟩ := Option.map_eq_some_iff.mp read
    obtain ⟨rfl, rfl, rfl⟩ : base' = base ∧ column' = column ∧ c' = c := by simpa using eq
    obtain ⟨keyword, -, whole, again⟩ := splitWhere_whole split
    obtain ⟨rfl, alone⟩ := columnRef_whole found
    have column : columnRef d column' = some (column', []) := by simpa using alone [] (by simp)
    exact ⟨base' ++ keyword :: column', rest, by simp [whole],
      ⟨again _, by simpa using plain, column⟩, condition⟩
  · rintro ⟨closed, count, front, rest, whole, ⟨split, plain, found⟩, condition⟩
    obtain ⟨keyword, -, rfl, again⟩ := splitWhere_whole split
    have clause := again (column ++ rest)
    have alone := (columnRef_whole found).2 rest (readCondition_head condition)
    rw [List.append_assoc, List.cons_append] at whole
    simp [deletion, closed, count, whole, clause, plain, alone, condition]

end TQDBProxy.WriteBatch
