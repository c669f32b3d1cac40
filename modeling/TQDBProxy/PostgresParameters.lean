import TQDBProxy.CheckedSlices
import TQDBProxy.PostgresDescribe

/-! The parameter description of a statement. The number of parameters is the
highest number after a dollar sign anywhere in the text; it sizes the buffer in
64 bits and is written in 16. -/

namespace TQDBProxy.Postgres

open Slices

/-- The size of the buffer is what it should be, and the message counts the type
numbers, of four bytes each, that follow the count. -/
structure ParametersDescribed (query : GoString) (o : Outcome) : Prop where
  exact : describedSize (countPostgresParams query) = 2 + 4 * countPostgresParams query
  nonnegative : 0 ≤ describedSize (countPostgresParams query)
  counted : ∃ reply, o.replies.head? = some reply ∧ reply.encode.head? = some 116 ∧
    4 * Binary.bigEndian ((reply.encode.drop 5).take 2) = (reply.encode.drop 7).length

variable {n : Nat}

theorem describedSize_eq (n : Nat) : describedSize n = int64 (2 + 4 * n : Nat) := by
  unfold describedSize int64
  with_reducible rfl

theorem describedSize_of_lt (small : n < 2 ^ 60) : describedSize n = 2 + 4 * n := by
  rw [describedSize_eq, int64_of_lt (by omega)]
  omega

theorem bigEndian_putUint16 (n : Nat) : Binary.bigEndian (putUint16 n) = n % 65536 := by
  simp [Binary.bigEndian, putUint16]
  omega

theorem encodeMessage_counted (msgType : UInt8) (n : Nat) (body : List UInt8) :
    (encodeMessage msgType (putUint16 n ++ body)).head? = some msgType ∧
      ((encodeMessage msgType (putUint16 n ++ body)).drop 5).take 2 = putUint16 n ∧
      (encodeMessage msgType (putUint16 n ++ body)).drop 7 = body := by
  simp [encodeMessage, putUint32, putUint16]

theorem encode_parameterDescription (n : Nat) :
    (Reply.parameterDescription n).encode.head? = some 116 ∧
      Binary.bigEndian (((Reply.parameterDescription n).encode.drop 5).take 2) = n % 65536 ∧
      ((Reply.parameterDescription n).encode.drop 7).length = (describedSize n).toNat - 2 := by
  obtain ⟨kind, count, body⟩ :=
    encodeMessage_counted 116 n (List.replicate ((describedSize n).toNat - 2) 0)
  rw [Reply.encode, count, body, bigEndian_putUint16, List.length_replicate]
  exact ⟨kind, rfl, rfl⟩

theorem describeStatement_head (query : GoString) :
    (describeStatement query).replies.head? =
      if oversized (countPostgresParams query) then none
      else some (.parameterDescription (countPostgresParams query)) := by
  rw [describeStatement]
  cases oversized (countPostgresParams query) with
  | true => simp
  | false =>
    cases Strings.index (Strings.toUpper query) (lit " RETURNING ") with
    | none => simp
    | some index =>
      dsimp only
      cases returningColumn query index <;> simp

theorem oversized_of_lt (small : n < 65536) : oversized n = false := by
  rw [oversized, describedSize_of_lt (by omega), Bool.or_eq_false_iff, decide_eq_false_iff_not,
    decide_eq_false_iff_not]
  omega

theorem described_iff (query : GoString) :
    ParametersDescribed query (describeStatement query) ↔ countPostgresParams query < 65536 := by
  have head := describeStatement_head query
  generalize numParams : countPostgresParams query = n at head
  obtain ⟨kind, count, oids⟩ := encode_parameterDescription n
  constructor
  · rintro ⟨exact, -, reply, first, -, counted⟩
    rw [numParams] at exact
    rw [head] at first
    split at first
    · cases first
    · cases first
      rw [count, oids, exact] at counted
      omega
  · intro small
    have size := describedSize_of_lt (n := n) (by omega)
    rw [oversized_of_lt small, if_neg (by simp)] at head
    refine ⟨by rw [numParams, size], by rw [numParams, size]; omega, _, head, kind, ?_⟩
    rw [count, oids, size]
    omega

/-- The description of any statement that is stored, whenever it is asked for. -/
theorem parameters_described_iff (s : Session) (body stmtName query rest : List UInt8)
    (named : takeName body = some (stmtName, rest))
    (stored : lookup stmtName s.preparedStatements = some query) :
    ParametersDescribed query (describeOutcome (83 :: body) s) ↔
      countPostgresParams query < 65536 := by
  rw [describeOutcome_statement named stored]
  exact described_iff query

def afterParse (query : String) : Session := (handleParse (0 :: (lit query ++ [0, 0, 0])) client).2

theorem parameters_described_pair :
    ParametersDescribed (lit "SELECT $1, $2")
      (describeOutcome [83, 0] (afterParse "SELECT $1, $2")) :=
  (parameters_described_iff (afterParse "SELECT $1, $2") [0] [] (lit "SELECT $1, $2") [] rfl
    (by decide +kernel)).mpr (by decide +kernel)

/-- 65536 type numbers follow the count zero, and a size past the integers is negative. -/
theorem parameters_miscounted :
    (∃ n, (describeOutcome [83, 0] (afterParse "SELECT $65536")).replies.head? =
        some (.parameterDescription n) ∧
      Binary.bigEndian (((Reply.parameterDescription n).encode.drop 5).take 2) = 0 ∧
      ((Reply.parameterDescription n).encode.drop 7).length = 4 * 65536) ∧
    describedSize (countPostgresParams (lit "SELECT $2305843009213693952")) = 2 - 2 ^ 63 ∧
    (describeOutcome [83, 0] (afterParse "SELECT $2305843009213693952")).panics = true := by
  have numParams : countPostgresParams (lit "SELECT $65536") = 65536 := by decide +kernel
  obtain ⟨-, count, oids⟩ := encode_parameterDescription 65536
  refine ⟨⟨65536, ?_, count, ?_⟩, by decide +kernel, by decide +kernel⟩
  · have stored : lookup [] (afterParse "SELECT $65536").preparedStatements =
        some (lit "SELECT $65536") := by decide +kernel
    rw [describeOutcome_statement (show takeName [0] = some ([], []) from rfl) stored,
      describeStatement_head, numParams]
    rfl
  · rw [oids, describedSize_of_lt (by omega)]
    rfl

end TQDBProxy.Postgres
