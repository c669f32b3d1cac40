import TQDBProxy.BatchReturning
import TQDBProxy.BatchRows

/-! The ids that the requests of a combined INSERT get. The database gives one id and numbers
the rows of the statement one after the other; the code counts requests and not rows. -/

namespace TQDBProxy.WriteBatch

open SqlTokens ListCopies

def tupleCount : Nat → List GoString → Nat
  | _, [] => 0
  | depth, t :: rest =>
    (if depth = 0 ∧ t.head? = some 40 then 1 else 0) + tupleCount (parenDepth depth t) rest

def rowsIn (d : Dialect) (text : GoString) : Nat := tupleCount 0 (valueList d 0 (code d text)).1

def rowsOf (d : Dialect) (texts : List GoString) : Nat :=
  texts.foldr (fun text n => rowsIn d text + n) 0

/-- The rows that the database puts in. -/
def statementRows (d : Dialect) (text : GoString) : Nat :=
  match splitValues d (code d text) with
  | some (_, values, _) => tupleCount 0 values
  | none => 0

def rowsEach (d : Dialect) (query : GoString) (requests : List (List Value)) : Nat :=
  if (requests.headD []).length = 0 then rowsIn d (valuesClause query) else 1

variable {d : Dialect} {query : GoString} {requests : List (List Value)}

/-! ### Rows of a tuple -/

def flat (t : GoString) : Prop := t.head? ≠ some 40 ∧ t.head? ≠ some 41

theorem parenDepth_flat {t : GoString} (flat : flat t) (depth : Nat) :
    parenDepth depth t = depth := by
  rw [parenDepth, if_neg flat.1, if_neg flat.2]

theorem tupleCount_flat {toks : List GoString} (all : ∀ t ∈ toks, flat t) (depth : Nat)
    (rest : List GoString) :
    tupleCount depth (toks ++ rest) = tupleCount depth rest := by
  induction toks with
  | nil => rfl
  | cons t toks ih =>
    rw [List.forall_mem_cons] at all
    rw [List.cons_append, tupleCount, if_neg fun opens => all.1.1 opens.2, parenDepth_flat all.1,
      ih all.2, Nat.zero_add]

theorem valueList_flat {toks : List GoString} (all : ∀ t ∈ toks, flat t) (depth : Nat)
    (rest : List GoString) :
    valueList d (depth + 1) (toks ++ rest) =
      (toks ++ (valueList d (depth + 1) rest).1, (valueList d (depth + 1) rest).2) := by
  induction toks with
  | nil => rfl
  | cons t toks ih =>
    rw [List.forall_mem_cons] at all
    rw [List.cons_append, valueList, parenDepth_flat all.1, ih all.2]
    rfl

theorem flat_placeholder (isPostgres : Bool) (i : Nat) : flat (placeholder isPostgres i) := by
  cases isPostgres <;> exact ⟨by simp [placeholder], by simp [placeholder]⟩

theorem flat_items {items : List GoString} (all : ∀ t ∈ items, flat t) :
    ∀ t ∈ joinWith [[44]] (items.map fun t => [t]), flat t := by
  intro t mem
  rcases mem_joinWith mem with comma | ⟨item, single, mem⟩
  · rw [List.mem_singleton.mp comma]
    exact ⟨by decide, by decide⟩
  · obtain ⟨u, inside, rfl⟩ := List.mem_map.mp single
    rw [List.mem_singleton.mp mem]
    exact all u inside

theorem rowsIn_valueTuple (d : Dialect) (isPostgres : Bool) (numParams i : Nat) :
    rowsIn d (valueTuple isPostgres numParams i) = 1 := by
  have all : ∀ t ∈ (List.range' i numParams).map (placeholder isPostgres), flat t := by
    intro t mem
    obtain ⟨k, _, rfl⟩ := List.mem_map.mp mem
    exact flat_placeholder isPostgres k
  have heads : ∀ t ∈ (List.range' i numParams).map (placeholder isPostgres),
      ∃ b u, t = b :: u ∧ b ∉ ([35, 45, 47] : GoString) := by
    intro t mem
    obtain ⟨k, _, rfl⟩ := List.mem_map.mp mem
    exact heads_placeholder isPostgres k
  have lexed : lex d (valueTuple isPostgres numParams i) =
      ⟨.gap, tuple [44] [40] [41] ((List.range' i numParams).map (placeholder isPostgres))⟩ :=
    run_valueTuple isPostgres numParams i []
  have read : code d (valueTuple isPostgres numParams i) =
      tuple [44] [40] [41] ((List.range' i numParams).map (placeholder isPostgres)) := by
    rw [code_closed (by rw [lexed]; rfl), tokens, lexed,
      significant_of_heads (heads_tuple heads)]
  have items := flat_items all
  have opens : ([40] : GoString).head? = some 40 := rfl
  have list : valueList d 1 (joinWith [[44]]
      (((List.range' i numParams).map (placeholder isPostgres)).map fun t => [t]) ++ [[41]]) = _ :=
    valueList_flat items 0 [[41]]
  rw [rowsIn, read, tuple, List.cons_append, valueList, if_pos opens, list]
  dsimp only
  rw [tupleCount, if_pos ⟨rfl, opens⟩, parenDepth, if_pos opens, tupleCount_flat items]
  rfl

/-! ### The ids -/

theorem rowsOf_uniform {texts : List GoString} {k : Nat}
    (each : ∀ text ∈ texts, rowsIn d text = k) :
    rowsOf d texts = texts.length * k := by
  induction texts with
  | nil => exact (Nat.zero_mul k).symm
  | cons text rest ih =>
    rw [List.forall_mem_cons] at each
    rw [rowsOf, List.foldr_cons, ← rowsOf, ih each.2, each.1, List.length_cons, Nat.succ_mul,
      Nat.add_comm]

theorem rowsIn_valueTuples (isPostgres : Bool) (numParams i n : Nat) :
    ∀ text ∈ valueTuples isPostgres numParams i n, rowsIn d text = 1 := by
  induction n generalizing i with
  | zero => exact List.forall_mem_nil _
  | succ n ih => exact List.forall_mem_cons.mpr ⟨rowsIn_valueTuple d isPostgres numParams i, ih _⟩

theorem rowsIn_rowTexts (d : Dialect) (query : GoString) (requests : List (List Value)) :
    ∀ text ∈ rowTexts query requests, rowsIn d text = rowsEach d query requests := by
  unfold rowTexts rowsEach
  split
  · intro text mem
    obtain ⟨_, _, rfl⟩ := List.mem_map.mp mem
    rfl
  · exact rowsIn_valueTuples _ _ _ _

theorem length_valueTuples (isPostgres : Bool) (numParams i n : Nat) :
    (valueTuples isPostgres numParams i n).length = n := by
  induction n generalizing i with
  | zero => rfl
  | succ n ih => rw [valueTuples, List.length_cons, ih]

theorem length_rowTexts (query : GoString) (requests : List (List Value)) :
    (rowTexts query requests).length = requests.length := by
  unfold rowTexts
  split
  · rw [List.length_map]
  · exact length_valueTuples _ _ _ _

def rowsBefore (d : Dialect) (b : Batch) (i : Nat) : Nat :=
  rowsOf d ((rowTexts b.first.query b.paramLists).take i)

theorem rowsBefore_eq (d : Dialect) {b : Batch} {i : Nat} (inside : i ≤ b.requests.length) :
    rowsBefore d b i = i * rowsEach d b.first.query b.paramLists := by
  rw [rowsBefore,
    rowsOf_uniform fun text mem => rowsIn_rowTexts d _ _ text (List.mem_of_mem_take mem),
    List.length_take, length_rowTexts, Batch.paramLists, List.length_map, Nat.min_eq_left inside]

theorem wrap_multiple (i : Int) : ∃ q : Int, wrap i = i + q * 18446744073709551616 := by
  have modulus : ((1 <<< 64 : Nat) : Int) = 18446744073709551616 := rfl
  unfold wrap Int.bmod
  rw [modulus]
  dsimp only
  split
  · exact ⟨-(i / 18446744073709551616), by omega⟩
  · exact ⟨-(i / 18446744073709551616) - 1, by omega⟩

theorem wrap_of_int64 {i : Int} (low : -9223372036854775808 ≤ i) (high : i < 9223372036854775808) :
    wrap i = i := by
  have modulus : 1 <<< 64 = 18446744073709551616 := rfl
  rw [wrap, modulus, Int.bmod_eq_of_le] <;> omega

/-- The id that the driver hands over: of the first row of the statement, or of the last. -/
def rawInsertID (m : Manager) (first : Int) (rows : Nat) : Int :=
  if m.firstInsertIDIsFirst then first else first + rows - 1

theorem multiRow_delivers {m : Manager} {db : Nat → Reply} {b : Batch} {text : GoString}
    {args : List Value} {affected rawID returned : Int}
    (built : multiRow b.first.query b.paramLists = .statement text args)
    (reply : db 0 = .ok affected rawID returned) {i : Nat} {r : WriteResult} :
    (i, r) ∈ (executeTrueBatchedInsertMultiRow m db b {}).delivered ↔
    (rowResults m b rawID)[i]? = some r := by
  have silent : Silent {} := ⟨rfl, rfl⟩
  cases multiRow_exit m db b {} with
  | panics other _ | fallback other _ =>
    rw [built] at other
    cases other
  | refused text' args' e u _ _ refused _ =>
    cases reply.symm.trans refused
  | accepted text' args' affected' rawID' returned' u _ moved accepted ended =>
    cases reply.symm.trans accepted
    rw [ended]
    exact mem_sendAndNotify (silent.moved moved)

theorem rowResults_getElem (m : Manager) {b : Batch} (rawID : Int) {i : Nat}
    (inside : i < b.requests.length) :
    (rowResults m b rawID)[i]? =
      some ⟨1, wrap (normalizeFirstInsertID m rawID b.requests.length + i),
      b.requests.length, [], none⟩ := by
  rw [rowResults, List.getElem?_map, Batch.indices, List.getElem?_range inside]
  rfl

theorem ids_of_single {m : Manager} {first : Int} {n i : Nat} (inside : i < n)
    (low : -9223372036854775808 ≤ first) (high : first + n ≤ 9223372036854775808) :
    wrap (normalizeFirstInsertID m (rawInsertID m first n) n + i) = first + i := by
  have start : normalizeFirstInsertID m (rawInsertID m first n) n = first := by
    unfold normalizeFirstInsertID rawInsertID
    split
    · rfl
    · have same : first + n - 1 - (n - 1 : Nat) = first := by omega
      rw [same]
      exact wrap_of_int64 low (by omega)
  rw [start]
  exact wrap_of_int64 (by omega) (by omega)

theorem single_of_ids {m : Manager} {first : Int} {n k : Nat} (several : 2 ≤ n)
    (counted : n < 9223372036854775808) (low : -9223372036854775808 ≤ first)
    (high : first + (n * k : Nat) ≤ 9223372036854775808)
    (zeroth : wrap (normalizeFirstInsertID m (rawInsertID m first (n * k)) n + (0 : Nat)) = first)
    (second : wrap (normalizeFirstInsertID m (rawInsertID m first (n * k)) n + (1 : Nat)) = first +
      k) : k = 1 := by
  have double : 2 * k ≤ n * k := Nat.mul_le_mul_right k several
  have scaled : n * k = n * 1 → k = 1 := Nat.eq_of_mul_eq_mul_left (by omega)
  generalize n * k = rows at *
  unfold normalizeFirstInsertID rawInsertID at zeroth second
  split at zeroth
  · rename_i isFirst
    simp only [isFirst, if_true] at zeroth second
    obtain ⟨q, wrapped⟩ := wrap_multiple (first + (1 : Nat))
    omega
  · obtain ⟨q, wrapped⟩ := wrap_multiple (first + rows - 1 - (n - 1 : Nat))
    obtain ⟨q', wrapped'⟩ := wrap_multiple (wrap (first + rows - 1 - (n - 1 : Nat)) + (0 : Nat))
    apply scaled
    omega

def twoRowInserts : Batch where
  requests :=
    [{ query := lit "INSERT INTO t (a) VALUES (1), (2)" },
      { query := lit "INSERT INTO t (a) VALUES (1), (2)" }]
  several := by decide

end TQDBProxy.WriteBatch
