import TQDBProxy.SqlCode
import TQDBProxy.WriteBatchTypes

/-! The multi-row rewriting of a batch of identical INSERT statements, and what it should
preserve: the tokens before the value list, one copy of the value list per request with
its placeholders bound to that request's parameters, and the tokens after it. -/

namespace TQDBProxy.WriteBatch

open SqlTokens

/-- The loop that skips leading comments; a round removes at least two bytes. -/
def skipComments : Nat → GoString → GoString
  | 0, q => Strings.trimSpace q
  | fuel + 1, q =>
    let q := Strings.trimSpace q
    if Strings.hasPrefix q (lit "/*") then
      match Strings.index q (lit "*/") with
      | none => q
      | some endIdx => skipComments fuel (q.drop (endIdx + 2))
    else q

def isBatchableInsert (query : GoString) : Bool :=
  let q := skipComments query.length query
  let qUpper := Strings.toUpper q
  12 < q.length && Strings.hasPrefix qUpper (lit "INSERT") &&
    Strings.contains qUpper (lit " VALUES") &&
    (q.getLast? == some 41 || q.getLast? == some 32)

def containsPostgresPlaceholder : GoString → Bool
  | a :: b :: rest => (a == 36 && 48 ≤ b && b ≤ 57) || containsPostgresPlaceholder (b :: rest)
  | _ => false

/-- The statement of `executeTrueBatchedInsertMultiRow` with its arguments. -/
inductive MultiRow where
  | fallback
  | panics
  | statement (query : GoString) (args : List Value)
  deriving DecidableEq

def valuesIdx (query : GoString) : Option Nat :=
  (Strings.index (Strings.toUpper query) (lit "VALUES")).map (· + 6)

def placeholder (isPostgres : Bool) (paramIndex : Nat) : GoString :=
  if isPostgres then 36 :: Strconv.itoa paramIndex else [63]

def valueTuple (isPostgres : Bool) (numParams paramIndex : Nat) : GoString :=
  [40] ++ joinWith [44] ((List.range' paramIndex numParams).map (placeholder isPostgres)) ++ [41]

def valueTuples (isPostgres : Bool) (numParams : Nat) : Nat → Nat → List GoString
  | _, 0 => []
  | paramIndex, requests + 1 =>
    valueTuple isPostgres numParams paramIndex ::
      valueTuples isPostgres numParams (paramIndex + numParams) requests

def multiRow (firstQuery : GoString) (params : List (List Value)) : MultiRow :=
  match valuesIdx firstQuery with
  | none => .fallback
  | some valuesIdx =>
    match Strings.sliceTo firstQuery valuesIdx with
    | none => .panics
    | some baseQuery =>
      let numParams := (params.headD []).length
      if numParams = 0 then
        let valuesClause := Strings.trimSpace (firstQuery.drop valuesIdx)
        .statement (baseQuery ++ [32] ++ joinWith [44, 32] (params.map fun _ => valuesClause)) []
      else
        let isPostgres := containsPostgresPlaceholder firstQuery
        .statement (baseQuery ++ [32] ++
          joinWith [44, 32] (valueTuples isPostgres numParams 1 params.length)) params.flatten

theorem multiRow_cut {query text : GoString} {requests : List (List Value)} {args : List Value}
    (built : multiRow query requests = .statement text args) :
    ∃ cut, valuesIdx query = some cut ∧ cut ≤ query.length := by
  unfold multiRow at built
  split at built
  · cases built
  · rename_i cut found
    refine ⟨cut, found, ?_⟩
    by_contra beyond
    simp [Strings.sliceTo, beyond] at built

theorem multiRow_of_cut {query : GoString} {requests : List (List Value)} {cut : Nat}
    (found : valuesIdx query = some cut) (bound : cut ≤ query.length) :
    multiRow query requests =
      if (requests.headD []).length = 0 then
        .statement (query.take cut ++ [32] ++ joinWith [44, 32]
          (requests.map fun _ => Strings.trimSpace (query.drop cut))) []
      else
        .statement (query.take cut ++ [32] ++ joinWith [44, 32]
          (valueTuples (containsPostgresPlaceholder query) (requests.headD []).length 1
            requests.length)) requests.flatten := by
  unfold multiRow
  rw [found]
  simp only [Strings.sliceTo, bound, if_true]

def parenDepth (depth : Nat) (t : GoString) : Nat :=
  if t.head? = some 40 then depth + 1 else if t.head? = some 41 then depth - 1 else depth

/-- What makes a VALUES after it another one than that of the value list. -/
def isQueryWord (t : GoString) : Bool :=
  ["SELECT", "SET", "ON", "VALUES"].any fun word => isKeyword (lit word) t

/-- The tokens up to the VALUES keyword of the value list, and the rest. -/
def splitKeyword (d : Dialect) : Nat → List GoString → Option (List GoString × List GoString)
  | _, [] => none
  | depth, t :: rest =>
    if depth = 0 ∧ isKeyword (lit "VALUES") t then some ([t], rest)
    else if depth = 0 ∧ (pieces d t).any isQueryWord then none
    else
      (splitKeyword d ((pieces d t).foldl parenDepth depth) rest).map
        fun (before, after) => (t :: before, after)

/-- The value list at the front of some tokens: parenthesised groups and the
commas and comments between them. An executable comment ends it. -/
def valueList (d : Dialect) : Nat → List GoString → List GoString × List GoString
  | _, [] => ([], [])
  | 0, t :: rest =>
    if t.head? = some 40 then
      let (values, after) := valueList d 1 rest
      (t :: values, after)
    else if t.head? = some 44 ∨ isComment d t then
      let (values, after) := valueList d 0 rest
      (t :: values, after)
    else ([], t :: rest)
  | depth + 1, t :: rest =>
    let (values, after) := valueList d (parenDepth (depth + 1) t) rest
    (t :: values, after)

/-- The tokens before the value list with the keyword, the value list, and the
tokens after it. -/
def splitValues (d : Dialect) (toks : List GoString) :
     Option (List GoString × List GoString × List GoString) :=
  (splitKeyword d 0 toks).map fun (before, rest) => (before, valueList d 0 rest)

def placeholderIndex : GoString → Nat
  | 36 :: digits => if digits ≠ [] ∧ digits.all isDigit then Strconv.digitsValue digits else 0
  | _ => 0

def isPlaceholder (d : Dialect) (t : GoString) : Bool :=
  match d with
  | .mysql => t == [63]
  | .postgres => placeholderIndex t != 0

def arity (d : Dialect) (toks : List GoString) : Nat :=
  match d with
  | .mysql => toks.countP (isPlaceholder .mysql)
  | .postgres => (toks.map placeholderIndex).foldr max 0

inductive Resolved where
  | text (t : GoString)
  | bound (value : Option Value)
  deriving DecidableEq

def argPosition (d : Dialect) (ordinal : Nat) (t : GoString) : Nat :=
  match d with
  | .mysql => ordinal
  | .postgres => placeholderIndex t - 1

def resolve (d : Dialect) (args : List Value) : Nat → List GoString → List Resolved
  | _, [] => []
  | ordinal, t :: rest =>
    if isPlaceholder d t then
      .bound args[argPosition d ordinal t]? :: resolve d args (ordinal + 1) rest
    else .text t :: resolve d args ordinal rest

/-- The statement built for the requests is the original one with its value list
replaced by one copy per request, bound to the request's parameters. -/
def Preserved (d : Dialect) (query : GoString) (requests : List (List Value)) : Prop :=
  ∃ before values after text args middle,
    splitValues d (tokens d query) = some (before, values, after) ∧
    multiRow query requests = .statement text args ∧
    tokens d text = before ++ middle ++ after ∧
    resolve d args (before.countP (isPlaceholder d)) middle =
      joinWith [.text [44]] (requests.map fun params =>
        resolve d params (before.countP (isPlaceholder d)) values)

def boundTuple (params : List Value) : List Resolved :=
  [.text [40]] ++ joinWith [.text [44]] (params.map fun v => [.bound (some v)]) ++ [.text [41]]

/-- The first VALUES of the text is the keyword, nothing follows the value list,
and what the code repeats or generates is the value list. -/
def RewriteSafe (d : Dialect) (query : GoString) (requests : List (List Value)) : Prop :=
  ∃ before values cut,
    splitValues d (tokens d query) = some (before, values, []) ∧
    valuesIdx query = some cut ∧ cut ≤ query.length ∧
    tokens d (query.take cut) = before ∧
    if (requests.headD []).length = 0 then
      (lex d (Strings.trimSpace (query.drop cut))).mode.closed = true ∧
        squeeze (Strings.trimSpace (query.drop cut)) = squeeze (query.drop cut)
    else
      (containsPostgresPlaceholder query = true ↔ d = .postgres) ∧
        ∀ params ∈ requests,
          resolve d params (before.countP (isPlaceholder d)) values = boundTuple params

theorem splitKeyword_whole {d : Dialect} {depth : Nat} {toks before rest : List GoString}
    (split : splitKeyword d depth toks = some (before, rest)) :
    toks = before ++ rest ∧
      ∃ init t, before = init ++ [t] ∧ isKeyword (lit "VALUES") t = true := by
  induction toks generalizing depth before with
  | nil => simp [splitKeyword] at split
  | cons t toks ih =>
    rw [splitKeyword] at split
    split_ifs at split with keyword
    · obtain ⟨rfl, rfl⟩ : [t] = before ∧ toks = rest := by simpa using split
      exact ⟨rfl, [], t, rfl, keyword.2⟩
    · obtain ⟨⟨front, after⟩, found, eq⟩ := Option.map_eq_some_iff.mp split
      obtain ⟨rfl, rfl⟩ : t :: front = before ∧ after = rest := by simpa using eq
      obtain ⟨whole, init, u, rfl, keyword⟩ := ih found
      exact ⟨by rw [whole, List.cons_append], t :: init, u, rfl, keyword⟩

theorem valueList_whole (d : Dialect) (depth : Nat) (toks : List GoString) :
    toks = (valueList d depth toks).1 ++ (valueList d depth toks).2 := by
  induction toks generalizing depth with
  | nil => cases depth <;> rfl
  | cons t toks ih =>
    cases depth with
    | zero =>
      rw [valueList]
      split_ifs
      · exact congrArg (t :: ·) (ih 1)
      · exact congrArg (t :: ·) (ih 0)
      · rfl
    | succ depth =>
      rw [valueList]
      exact congrArg (t :: ·) (ih _)

theorem valueList_stop (d : Dialect) (depth : Nat) (toks : List GoString) :
    ∀ t rest, (valueList d depth toks).2 = t :: rest → t.head? ≠ some 44 := by
  induction toks generalizing depth with
  | nil => cases depth <;> simp [valueList]
  | cons u toks ih =>
    cases depth with
    | zero =>
      rw [valueList]
      split_ifs with _ comma
      · exact ih 1
      · exact ih 0
      · intro t rest eq
        obtain ⟨rfl, rfl⟩ := List.cons.inj eq
        exact fun head => comma (.inl head)
    | succ depth =>
      rw [valueList]
      exact ih _

variable {d : Dialect}

def listHead (d : Dialect) (t : GoString) : Prop :=
  t.head? = some 40 ∨ t.head? = some 44 ∨ isComment d t = true

theorem valueList_start {toks values after : List GoString} {t : GoString}
    (list : valueList d 0 toks = (t :: values, after)) : listHead d t := by
  cases toks with
  | nil => simp [valueList] at list
  | cons u toks =>
    rw [valueList] at list
    split_ifs at list with paren other
    · obtain ⟨⟨rfl, -⟩, -⟩ : (u = t ∧ _) ∧ _ := by simpa using list
      exact .inl paren
    · obtain ⟨⟨rfl, -⟩, -⟩ : (u = t ∧ _) ∧ _ := by simpa using list
      exact .inr other
    · simp at list

structure ValueSplit (d : Dialect) (toks before values after : List GoString) : Prop where
  whole : toks = before ++ values ++ after
  keyword : ∃ init t, before = init ++ [t] ∧ isKeyword (lit "VALUES") t = true
  start : ∀ t rest, values = t :: rest → listHead d t
  stop : ∀ t rest, after = t :: rest → t.head? ≠ some 44

theorem valueSplit_of_splitValues {toks before values after : List GoString}
    (split : splitValues d toks = some (before, values, after)) :
    ValueSplit d toks before values after := by
  obtain ⟨⟨front, rest⟩, found, eq⟩ := Option.map_eq_some_iff.mp split
  obtain ⟨rfl, list⟩ : front = before ∧ valueList d 0 rest = (values, after) := by simpa using eq
  have whole := valueList_whole d 0 rest
  have stop := valueList_stop d 0 rest
  rw [list] at whole stop
  obtain ⟨front, keyword⟩ := splitKeyword_whole found
  refine ⟨?_, keyword, fun t tail eq => ?_, stop⟩
  · rw [front, whole, List.append_assoc]
  · exact valueList_start (eq ▸ list)

theorem isKeyword_bytes {t : GoString} (keyword : isKeyword (lit "VALUES") t = true) :
    (∀ b ∈ t, isLetter b = true) ∧ ∃ front c, t = front ++ [c] ∧ (c = 83 ∨ c = 115) := by
  have upper : t.map Strings.upperByte = [86, 65, 76, 85, 69] ++ [83] := by
    rw [show [86, 65, 76, 85, 69] ++ [83] = lit "VALUES" by decide]
    simpa [isKeyword] using keyword
  have letters (b : UInt8) (letter : 65 ≤ (Strings.upperByte b).toNat)
      (letter' : (Strings.upperByte b).toNat ≤ 90) : isLetter b = true := by
    simp only [Strings.upperByte, Bool.and_eq_true, decide_eq_true_eq, UInt8.le_iff_toNat_le]
      at letter letter'
    simp only [isLetter, Bool.or_eq_true, Bool.and_eq_true, decide_eq_true_eq,
      UInt8.le_iff_toNat_le]
    split_ifs at letter letter' with small
    · exact .inr small
    · exact .inl ⟨letter, letter'⟩
  refine ⟨fun b mem => ?_, ?_⟩
  · have image := List.mem_map_of_mem (f := Strings.upperByte) mem
    rw [upper] at image
    simp only [List.cons_append, List.nil_append, List.mem_cons, List.not_mem_nil, or_false]
      at image
    rcases image with eq | eq | eq | eq | eq | eq
    all_goals exact letters b (by rw [eq]; decide) (by rw [eq]; decide)
  · rcases List.eq_nil_or_concat' t with rfl | ⟨front, c, rfl⟩
    · simp at upper
    · refine ⟨front, c, rfl, ?_⟩
      have last : [Strings.upperByte c] = [83] := by
        rw [List.map_append] at upper
        exact (List.append_inj' upper rfl).2
      have byte : Strings.upperByte c = 83 := by simpa using last
      rw [Strings.upperByte] at byte
      split_ifs at byte
      · right
        rw [← UInt8.toNat_inj] at byte ⊢
        rw [UInt8.toNat_sub] at byte
        have := c.toNat_lt
        simp at byte ⊢
        omega
      · exact .inl byte

end TQDBProxy.WriteBatch
