import Mathlib.Algebra.GroupWithZero.Nat
import TQDBProxy.InsertMeaning
import TQDBProxy.BatchLimits

/-! The rows of the combined INSERT and the parameters they are bound to. The tuples are as
wide as the parameter list of the first request; where a list is shorter or longer, the
rows after it take parameters of other requests. -/

namespace TQDBProxy.WriteBatch

open SqlTokens ListCopies

def baseText (query : GoString) : GoString := query.take ((valuesIdx query).getD 0)

def valuesClause (query : GoString) : GoString :=
  Strings.trimSpace (query.drop ((valuesIdx query).getD 0))

/-- What stands for each request after VALUES: a tuple of placeholders, or a copy of the
text that followed. -/
def rowTexts (query : GoString) (requests : List (List Value)) : List GoString :=
  if (requests.headD []).length = 0 then requests.map fun _ => valuesClause query
  else valueTuples (containsPostgresPlaceholder query) (requests.headD []).length 1 requests.length

def rowArgs (requests : List (List Value)) : List Value :=
  if (requests.headD []).length = 0 then [] else requests.flatten

variable {d : Dialect} {query text : GoString} {requests : List (List Value)} {args : List Value}

theorem multiRow_rows (built : multiRow query requests = .statement text args) :
    text = baseText query ++ [32] ++ joinWith [44, 32] (rowTexts query requests) ∧
      args = rowArgs requests := by
  obtain ⟨cut, found, bound⟩ := multiRow_cut built
  rw [multiRow_of_cut found bound] at built
  rw [baseText, rowTexts, rowArgs, valuesClause, found, Option.getD_some]
  split at built
  · rename_i empty
    rw [if_pos empty, if_pos empty]
    cases built
    exact ⟨rfl, rfl⟩
  · rename_i filled
    rw [if_neg filled, if_neg filled]
    cases built
    exact ⟨rfl, rfl⟩

/-- The statement is read as its base and the texts for the requests, with commas between. -/
def Separate (d : Dialect) (base : GoString) (rows : List GoString) : Prop :=
  tokens d (base ++ [32] ++ joinWith [44, 32] rows) =
    tokens d base ++ joinWith [[44]] (rows.map (tokens d))

def valuesBound : List Resolved → List (Option Value)
  | [] => []
  | .text _ :: rest => valuesBound rest
  | .bound value :: rest => value :: valuesBound rest

/-- What the database reads in a part of the statement. -/
def partCode (d : Dialect) (part : GoString) : List GoString := significant d (tokens d part)

def rowBindings (d : Dialect) (args : List Value) (base : GoString) (rows : List GoString) :
    List (List (Option Value)) :=
  (resolveEach d args ((partCode d base).countP (isPlaceholder d)) (rows.map (partCode d))).map
    valuesBound

/-- The rows stand apart, and each is bound to the parameters of its own request. -/
structure RowsBound (d : Dialect) (query : GoString) (requests : List (List Value))
    (args : List Value) : Prop where
  separate : Separate d (baseText query) (rowTexts query requests)
  own : rowBindings d args (baseText query) (rowTexts query requests) = requests.map (·.map some)

/-- A backend refuses what it cannot parse and a wrong number of arguments. -/
def Rejected (accepts : GoString → Bool) (d : Dialect) (text : GoString) (args : List Value) :
    Prop :=
  accepts text = false ∨ args.length ≠ arity d (partCode d text)

/-- The rows are apart: nothing is open at the cut and the placeholders are of the database, or
nothing that is repeated runs into what follows. -/
def RowsApart (d : Dialect) (query : GoString) (requests : List (List Value)) : Prop :=
  if (requests.headD []).length = 0 then Separate d (baseText query) (rowTexts query requests)
  else (lex d (baseText query)).mode.closed = true ∧
    (containsPostgresPlaceholder query = true ↔ d = .postgres)

/-- The arguments of two parts together: placeholders are counted, or numbered. -/
def slots (d : Dialect) (m n : Nat) : Nat :=
  match d with
  | .mysql => m + n
  | .postgres => max m n

/-- The requests do not have as many parameters as the text before VALUES and one tuple for
each request take. Without parameters there is a placeholder in the text. -/
def Miscounted (d : Dialect) (query : GoString) (requests : List (List Value)) : Prop :=
  if (requests.headD []).length = 0 then
    0 < arity d (partCode d (baseText query)) ∨ 0 < arity d (partCode d (valuesClause query))
  else
    (requests.map List.length).sum ≠
      slots d (arity d (partCode d (baseText query)))
        (requests.length * (requests.headD []).length)

/-! ### The number of arguments -/

theorem significant_joinWith (parts : List (List GoString)) :
    significant d (joinWith [[44]] parts) = joinWith [[44]] (parts.map (significant d)) := by
  induction parts with
  | nil => rfl
  | cons part rest ih =>
    cases rest with
    | nil => rfl
    | cons next rest =>
      have comma : significant d [[44]] = [[44]] := by cases d <;> rfl
      rw [joinWith_cons (by simp), significant_append, significant_append, ih, comma,
        List.map_cons (a := part), joinWith_cons (by simp)]

theorem code_of_separate {base : GoString} {rows : List GoString}
    (separate : Separate d base rows) :
    partCode d (base ++ [32] ++ joinWith [44, 32] rows) =
      partCode d base ++ joinWith [[44]] (rows.map (partCode d)) := by
  rw [Separate] at separate
  rw [partCode, separate, significant_append, significant_joinWith, List.map_map]
  rfl

theorem slots_zero (m : Nat) : slots d m 0 = m := by cases d <;> simp [slots]

theorem zero_slots (n : Nat) : slots d 0 n = n := by cases d <;> simp [slots]

theorem arity_append (front back : List GoString) :
    arity d (front ++ back) = slots d (arity d front) (arity d back) := by
  cases d with
  | mysql => exact List.countP_append
  | postgres =>
    induction front with
    | nil => simp [arity, slots]
    | cons t front ih =>
      simp only [arity, slots, List.cons_append, List.map_cons, List.foldr_cons] at ih ⊢
      rw [ih, max_assoc]

theorem arity_joinWith (parts : List (List GoString)) :
    arity d (joinWith [[44]] parts) = arity d parts.flatten := by
  induction parts with
  | nil => rfl
  | cons part rest ih =>
    cases rest with
    | nil => simp [joinWith]
    | cons next rest =>
      have comma : arity d [[44]] = 0 := by cases d <;> rfl
      rw [joinWith_cons (by simp), arity_append, arity_append, ih, comma, slots_zero,
        List.flatten_cons (l := part), arity_append]

theorem arity_tuple (items : List GoString) :
    arity d (tuple [44] [40] [41] items) = arity d items := by
  have brackets : arity d [[40]] = 0 ∧ arity d [[41]] = 0 := by cases d <;> exact ⟨rfl, rfl⟩
  have singles : (items.map fun t => [t]).flatten = items := by
    rw [← List.flatMap_def, List.flatMap_singleton']
  rw [tuple, ← List.singleton_append, arity_append, arity_append, brackets.1, brackets.2,
    slots_zero,
    zero_slots, arity_joinWith, singles]

theorem arity_placeholders (k i : Nat) :
    arity d ((List.range' (i + 1) (k + 1)).map (placeholder (d = .postgres))) =
      slots d (k + 1) (if d = .postgres then i + (k + 1) else 0) := by
  induction k generalizing i with
  | zero =>
    cases d with
    | mysql => rfl
    | postgres => simp [arity, slots, List.range'_succ, placeholderIndex_placeholder]
  | succ k ih =>
    rw [List.range'_succ, List.map_cons, ← List.singleton_append, arity_append, ih (i + 1)]
    cases d with
    | mysql =>
      simp [arity, slots, placeholder, isPlaceholder]
      omega
    | postgres =>
      simp [arity, slots, placeholderIndex_placeholder]
      omega

theorem arity_tuples (k n i : Nat) :
    arity d (tupleTokens (d = .postgres) (k + 1) (i + 1) (n + 1)).flatten =
      slots d ((n + 1) * (k + 1)) (if d = .postgres then i + (n + 1) * (k + 1) else 0) := by
  induction n generalizing i with
  | zero =>
    rw [tupleTokens, tupleTokens, List.flatten_cons, List.flatten_nil, List.append_nil, arity_tuple,
      arity_placeholders, Nat.zero_add, Nat.one_mul]
  | succ n ih =>
    have rest := ih (i + (k + 1))
    rw [tupleTokens, List.flatten_cons, arity_append, arity_tuple, arity_placeholders,
      Nat.add_right_comm i 1 (k + 1), rest, Nat.succ_mul (n + 1)]
    cases d with
    | mysql =>
      simp only [slots, reduceCtorEq, if_false]
      omega
    | postgres =>
      simp only [slots, if_true]
      omega

/-! ### Tuples -/

theorem tokens_valueTuples (d : Dialect) (isPostgres : Bool) (numParams i n : Nat) :
    (valueTuples isPostgres numParams i n).map (tokens d) =
      tupleTokens isPostgres numParams i n := by
  induction n generalizing i with
  | zero => rfl
  | succ n ih =>
    have first : tokens d (valueTuple isPostgres numParams i) =
        tuple [44] [40] [41] ((List.range' i numParams).map (placeholder isPostgres)) :=
      congrArg Lex.toks (run_valueTuple isPostgres numParams i [])
    rw [valueTuples, tupleTokens, List.map_cons, ih, first]

theorem code_valueTuples (d : Dialect) (isPostgres : Bool) (numParams i n : Nat) :
    (valueTuples isPostgres numParams i n).map (partCode d) =
      tupleTokens isPostgres numParams i n := by
  induction n generalizing i with
  | zero => rfl
  | succ n ih =>
    have first : partCode d (valueTuple isPostgres numParams i) =
        tuple [44] [40] [41] ((List.range' i numParams).map (placeholder isPostgres)) := by
      rw [partCode, tokens, lex, run_valueTuple isPostgres numParams i [], List.nil_append]
      refine significant_of_heads (heads_tuple fun t mem => ?_)
      obtain ⟨k, -, rfl⟩ := List.mem_map.mp mem
      exact heads_placeholder isPostgres k
    rw [valueTuples, tupleTokens, List.map_cons, ih, first]

theorem separate_tuples {base : GoString} (closed : (lex d base).mode.closed = true)
    (isPostgres : Bool) (numParams n : Nat) :
    Separate d base (valueTuples isPostgres numParams 1 n) := by
  rw [Separate, tokens_valueTuples]
  exact tokens_tuples closed numParams n

theorem length_valuesBound (resolved : List Resolved) :
    (valuesBound resolved).length = resolved.countP Resolved.isBound := by
  induction resolved with
  | nil => rfl
  | cons x rest ih =>
    cases x with
    | text t => rw [valuesBound, ih, List.countP_cons_of_neg (by simp [Resolved.isBound])]
    | bound value => rw [valuesBound, List.length_cons, ih, List.countP_cons_of_pos rfl]

theorem valuesBound_append (front back : List Resolved) :
    valuesBound (front ++ back) = valuesBound front ++ valuesBound back := by
  induction front with
  | nil => rfl
  | cons x rest ih => cases x <;> simp [valuesBound, ih]

theorem valuesBound_tuple (params : List Value) :
    valuesBound (boundTuple params) = params.map some := by
  have inner : valuesBound (joinWith [.text [44]] (params.map fun v => [.bound (some v)])) =
      params.map some := by
    induction params with
    | nil => rfl
    | cons v rest ih =>
      cases rest with
      | nil => rfl
      | cons w rest =>
        rw [List.map_cons, joinWith_cons (by simp), valuesBound_append, valuesBound_append, ih]
        rfl
  rw [boundTuple, valuesBound_append, valuesBound_append, inner]
  simp [valuesBound]

theorem length_rowBindings (d : Dialect) (args : List Value) (ordinal : Nat)
    (parts : List (List GoString)) :
    ((resolveEach d args ordinal parts).map valuesBound).map List.length =
      parts.map (·.countP (isPlaceholder d)) := by
  induction parts generalizing ordinal with
  | nil => rfl
  | cons part rest ih =>
    rw [resolveEach, List.map_cons, List.map_cons, List.map_cons, ih, length_valuesBound,
      countP_isBound]

theorem countP_tupleTokens (d : Dialect) (numParams : Nat) {i : Nat} (positive : 0 < i) (n : Nat) :
    (tupleTokens (d = .postgres) numParams i n).map (·.countP (isPlaceholder d)) =
      List.replicate n numParams := by
  induction n generalizing i with
  | zero => rfl
  | succ n ih =>
    rw [tupleTokens, List.map_cons, ih (Nat.add_pos_left positive _), List.replicate_succ,
      countP_tuple, countP_generated d positive]

/-! ### The two kinds of rows -/

theorem plain_rows_own_iff {ordinal : Nat} {parts : List (List GoString)}
    (count : parts.length = requests.length)
    (plain : ∀ part ∈ parts, part.countP (isPlaceholder d) = 0) :
    (resolveEach d args ordinal parts).map valuesBound = requests.map (·.map some) ↔
      ∀ params ∈ requests, params.length = 0 := by
  have bindings : (resolveEach d args ordinal parts).map valuesBound =
      List.replicate requests.length [] := by
    rw [List.eq_replicate_iff]
    refine ⟨by rw [List.length_map, length_resolveEach, count], fun values mem => ?_⟩
    have inside := List.mem_map_of_mem (f := List.length) mem
    rw [length_rowBindings] at inside
    obtain ⟨part, mem', same⟩ := List.mem_map.mp inside
    rw [plain part mem'] at same
    exact List.eq_nil_of_length_eq_zero same.symm
  rw [bindings, eq_comm, List.eq_replicate_iff, List.length_map, and_iff_right rfl,
    List.forall_mem_map]
  simp only [List.map_eq_nil_iff, List.length_eq_zero_iff]

theorem sum_of_fit {k : Nat} (fit : ∀ params ∈ requests, params.length = k) :
    (requests.map List.length).sum = requests.length * k := by
  rw [List.map_congr_left fit, List.map_const', List.sum_replicate_nat]

/-- Tuples of placeholders are bound to the parameters of their own requests when these are
as many in each. -/
theorem tuple_rows_own_iff {ordinal numParams : Nat}
    (start : d = .mysql →
      (requests.map List.length).sum = ordinal + requests.length * numParams) :
    (resolveEach d requests.flatten ordinal
        (tupleTokens (d = .postgres) numParams 1 requests.length)).map valuesBound =
        requests.map (·.map some) ↔
      ∀ params ∈ requests, params.length = numParams := by
  constructor
  · intro own
    have counts : requests.map List.length = List.replicate requests.length numParams := by
      rw [← countP_tupleTokens d numParams Nat.one_pos,
        ← length_rowBindings d requests.flatten ordinal,
        own, List.map_map]
      simp only [Function.comp_def, List.length_map]
    rw [List.eq_replicate_iff, List.forall_mem_map] at counts
    exact counts.2
  · intro fit
    have numbered := resolveEach_generated d [] fit
    rw [List.nil_append, List.length_nil, Nat.zero_add] at numbered
    have bindings : resolveEach d requests.flatten ordinal
        (tupleTokens (d = .postgres) numParams 1 requests.length) = requests.map boundTuple := by
      cases d with
      | postgres => rw [resolveEach_postgres _ ordinal 0, numbered]
      | mysql =>
        have zero : ordinal = 0 := by
          have total := start rfl
          rw [sum_of_fit fit] at total
          omega
        rw [zero, numbered]
    rw [bindings, List.map_map]
    exact List.map_congr_left fun params _ => valuesBound_tuple params

/-! ### The statement -/

theorem RowsApart.separate (apart : RowsApart d query requests) :
    Separate d (baseText query) (rowTexts query requests) := by
  unfold RowsApart at apart
  split at apart
  · exact apart
  · rename_i wide
    rw [rowTexts, if_neg wide]
    exact separate_tuples apart.1 _ _ _

theorem tuples_of_apart (apart : RowsApart d query requests)
    (wide : ¬ (requests.headD []).length = 0) :
    (rowTexts query requests).map (partCode d) =
      tupleTokens (d = .postgres) (requests.headD []).length 1 requests.length := by
  rw [RowsApart, if_neg wide] at apart
  have style : containsPostgresPlaceholder query = decide (d = .postgres) := by
    rw [Bool.eq_iff_iff, decide_eq_true_iff]
    exact apart.2
  rw [rowTexts, if_neg wide, code_valueTuples, style]

theorem miscounted_iff (apart : RowsApart d query requests) (filled : requests ≠ []) :
    (rowArgs requests).length ≠ arity d (partCode d
        (baseText query ++ [32] ++ joinWith [44, 32] (rowTexts query requests))) ↔
      Miscounted d query requests := by
  obtain ⟨n, size⟩ := Nat.exists_eq_succ_of_ne_zero (List.length_pos_iff.mpr filled).ne'
  rw [code_of_separate apart.separate, arity_append, arity_joinWith, rowArgs, Miscounted]
  by_cases empty : (requests.headD []).length = 0
  · have copies : (arity d ((requests.map fun _ => partCode d (valuesClause query)).flatten) = 0) ↔
        arity d (partCode d (valuesClause query)) = 0 := by
      rw [List.map_const', size]
      clear size
      induction n with
      | zero => simp
      | succ n ih =>
        rw [List.replicate_succ, List.flatten_cons, arity_append]
        cases d <;> simp_all [slots]
    have texts : (rowTexts query requests).map (partCode d) =
        requests.map fun _ => partCode d (valuesClause query) := by
      rw [rowTexts, if_pos empty, List.map_map]
      rfl
    have both (m k : Nat) : slots d m k = 0 ↔ m = 0 ∧ k = 0 := by
      cases d <;> simp [slots]
    rw [if_pos empty, if_pos empty, texts, List.length_nil, ne_comm, Ne, both, copies]
    omega
  · obtain ⟨k, width⟩ := Nat.exists_eq_succ_of_ne_zero empty
    rw [if_neg empty, if_neg empty, tuples_of_apart apart empty, List.length_flatten, width, size,
      arity_tuples k n 0]
    cases d <;> simp [slots]

theorem plain_rows {base : GoString} {rows : List GoString} (separate : Separate d base rows)
    (none : arity d (partCode d (base ++ [32] ++ joinWith [44, 32] rows)) = 0) :
    ∀ part ∈ rows.map (partCode d), part.countP (isPlaceholder d) = 0 := by
  intro part mem
  rw [code_of_separate separate, arity_append, arity_joinWith] at none
  have rows : arity d (rows.map (partCode d)).flatten = 0 := by
    cases d <;> simp [slots] at none <;> exact none.2
  rw [List.countP_eq_zero]
  intro t inside
  rw [not_placeholder_of_arity rows t (List.mem_flatten_of_mem mem inside)]
  exact Bool.false_ne_true

theorem rowsBound_iff (apart : RowsApart d query requests)
    (counted : (rowArgs requests).length = arity d (partCode d
      (baseText query ++ [32] ++ joinWith [44, 32] (rowTexts query requests)))) :
    RowsBound d query requests (rowArgs requests) ↔
      ∀ params ∈ requests, params.length = (requests.headD []).length := by
  have own : RowsBound d query requests (rowArgs requests) ↔ rowBindings d (rowArgs requests)
      (baseText query) (rowTexts query requests) = requests.map (·.map some) :=
    ⟨RowsBound.own, fun own => ⟨apart.separate, own⟩⟩
  rw [own, rowBindings]
  by_cases empty : (requests.headD []).length = 0
  · have count : ((rowTexts query requests).map (partCode d)).length = requests.length := by
      rw [rowTexts, if_pos empty, List.length_map, List.length_map]
    rw [rowArgs, if_pos empty] at counted
    rw [plain_rows_own_iff count (plain_rows apart.separate counted.symm), empty]
  · rw [tuples_of_apart apart empty]
    rw [rowArgs, if_neg empty] at counted ⊢
    refine tuple_rows_own_iff ?_
    rintro rfl
    by_cases filled : requests = []
    · simp [filled] at empty
    have exact : ¬ Miscounted .mysql query requests := by
      rw [← miscounted_iff apart filled, rowArgs, if_neg empty]
      exact not_not_intro counted
    rw [Miscounted, if_neg empty, not_not] at exact
    exact exact

/-- Three clients bind two, three and one parameter to the same insert of two columns. -/
def unevenInserts : Batch where
  requests := [{ query := lit "INSERT INTO t (a, b) VALUES ($1, $2)", params := [.int 1, .int 2] },
    { query := lit "INSERT INTO t (a, b) VALUES ($1, $2)", params := [.int 3, .int 4, .int 5] },
    { query := lit "INSERT INTO t (a, b) VALUES ($1, $2)", params := [.int 6] }]
  several := by decide

def evenInserts : Batch where
  requests := [{ query := lit "INSERT INTO t (a, b) VALUES (?, ?)", params := [.int 1, .int 2] },
    { query := lit "INSERT INTO t (a, b) VALUES (?, ?)", params := [.int 3, .int 4] }]
  several := by decide

end TQDBProxy.WriteBatch
