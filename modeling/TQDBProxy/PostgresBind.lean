import TQDBProxy.PostgresWire

/-! The Bind message: two terminated names, the format codes, and the parameters, each
behind a length of 32 bits where -1 stands for NULL. The handler turns the length into
an `int` before it looks for -1; what that finds depends on the width of an `int`. -/

namespace TQDBProxy.Postgres

structure BindMessage where
  portalName : GoString
  stmtName : GoString
  formatCodes : List Nat
  params : List (Option GoString)
  resultCodes : List Nat
  portal_named : portalName.contains 0 = false
  stmt_named : stmtName.contains 0 = false
  text : ∀ code ∈ formatCodes, code = 0
  codes_counted : formatCodes.length < 65536
  params_counted : params.length < 65536
  /-- The largest number of 32 bits stands for NULL. -/
  measured : ∀ value, some value ∈ params → value.length < 4294967295

def encodeParam : Option GoString → List UInt8
  | none => [255, 255, 255, 255]
  | some value => putUint32 value.length ++ value

def encodeCodes (codes : List Nat) : List UInt8 := putUint16 codes.length ++ codes.flatMap putUint16

def BindMessage.encode (m : BindMessage) : List UInt8 :=
  m.portalName ++ [0] ++ (m.stmtName ++ [0] ++ (encodeCodes m.formatCodes ++
    (putUint16 m.params.length ++ (m.params.flatMap encodeParam ++ encodeCodes m.resultCodes))))

theorem encodeParam_long (param : Option GoString) (rest : List UInt8) :
    ¬ (encodeParam param ++ rest).length < 4 := by
  cases param <;> simp [encodeParam]

theorem encodeParam_length {value : GoString} (measured : value.length < 4294967295)
    (rest : List UInt8) :
    Binary.bigEndian ((encodeParam (some value) ++ rest).take 4) = value.length := by
  have front : (encodeParam (some value) ++ rest).take 4 = putUint32 value.length := rfl
  rw [front, bigEndian_putUint32, Nat.mod_eq_of_lt (by omega)]

theorem encodeParam_value (value : GoString) (rest : List UInt8) :
    (encodeParam (some value) ++ rest).drop 4 = value ++ rest := rfl

/-! ### The width of an `int` -/

inductive Bound where
  | values (params : List (Option GoString))
  | malformed (message : GoString)
  | panics
  deriving DecidableEq

def Bound.cons (param : Option GoString) : Bound → Bound
  | .values params => .values (param :: params)
  | .malformed message => .malformed message
  | .panics => .panics

def goInt (bits n : Nat) : Int := Int.bmod n (1 <<< bits)

/-- The loop as it is written, for an `int` of any width: a length other than -1 that
is negative passes the comparison with the payload and is then no bound of a slice. -/
def bindLoop (bits : Nat) : Nat → List UInt8 → Bound
  | 0, _ => .values []
  | numParams + 1, rest =>
    if rest.length < 4 then .malformed (lit "malformed Bind message: incomplete parameter length")
    else
      let paramLen := goInt bits (Binary.bigEndian (rest.take 4))
      let rest := rest.drop 4
      if paramLen = -1 then (bindLoop bits numParams rest).cons none
      else if rest.length < paramLen then
        .malformed (lit "malformed Bind message: incomplete parameter value")
      else if paramLen < 0 then .panics
      else (bindLoop bits numParams (rest.drop paramLen.toNat)).cons
        (some (rest.take paramLen.toNat))

def Bound.ofExcept : Except GoString (List (Option GoString)) → Bound
  | .ok params => .values params
  | .error message => .malformed message

theorem bigEndian_lt {bytes : List UInt8} (four : bytes.length = 4) :
    Binary.bigEndian bytes < 4294967296 := by
  rw [← uint32_toNat four]
  exact UInt32.toNat_lt _

theorem goInt_64 {n : Nat} (small : n < 4294967296) : goInt 64 n = n := by
  have modulus : 1 <<< 64 = 18446744073709551616 := rfl
  rw [goInt, modulus, Int.bmod_eq_of_le]
  all_goals omega

/-- With 64 bits no length is negative: this is the loop of `handleBind`. -/
theorem bindLoop_64 (numParams : Nat) (rest : List UInt8) :
    bindLoop 64 numParams rest = .ofExcept (bindValues numParams rest) := by
  induction numParams generalizing rest with
  | zero => rfl
  | succ numParams ih =>
    rw [bindLoop, bindValues]
    by_cases short : rest.length < 4
    · rw [if_pos short, if_pos short]
      rfl
    · have four : (rest.take 4).length = 4 := by
        rw [List.length_take]
        omega
      have paramLen := goInt_64 (bigEndian_lt four)
      rw [if_neg short, if_neg short, paramLen]
      dsimp only
      rw [if_neg (by omega),
        if_neg (by omega : ¬ ((Binary.bigEndian (rest.take 4) : Nat) : Int) < 0), ih,
        Int.toNat_natCast]
      by_cases long : (rest.drop 4).length < Binary.bigEndian (rest.take 4)
      · rw [if_pos (Int.ofNat_lt.mpr long), if_pos long]
        rfl
      · rw [if_neg (fun lt => long (Int.ofNat_lt.mp lt)), if_neg long]
        cases bindValues numParams ((rest.drop 4).drop (Binary.bigEndian (rest.take 4))) <;> rfl

theorem goInt_32 {n : Nat} (small : n < 2147483648) : goInt 32 n = n := by
  have modulus : 1 <<< 32 = 4294967296 := rfl
  rw [goInt, modulus, Int.bmod_eq_of_le]
  all_goals omega

/-- With 32 bits the loop would take the parameters as they were sent. -/
theorem bindLoop_32 (params : List (Option GoString)) (rest : List UInt8)
    (measured : ∀ value, some value ∈ params → value.length < 2147483648) :
    bindLoop 32 params.length (params.flatMap encodeParam ++ rest) = .values params := by
  induction params with
  | nil => rfl
  | cons param params ih =>
    have later := ih fun value mem => measured value (List.mem_cons_of_mem _ mem)
    rw [List.flatMap_cons, List.append_assoc, List.length_cons, bindLoop]
    cases param with
    | none =>
      have null : goInt 32 (Binary.bigEndian [255, 255, 255, 255]) = -1 := by decide
      rw [if_neg (encodeParam_long _ _)]
      simp only [encodeParam, List.cons_append, List.nil_append, List.take_succ_cons,
        List.take_zero, null,
        if_true, List.drop_succ_cons, List.drop_zero, later, Bound.cons]
    | some value =>
      have short := measured value List.mem_cons_self
      have whole :
          ¬ ((value ++ (params.flatMap encodeParam ++ rest)).length : Int) < value.length := by
        rw [List.length_append]
        omega
      rw [if_neg (encodeParam_long _ _), encodeParam_length (by omega), encodeParam_value,
        goInt_32 short]
      dsimp only
      rw [if_neg (by omega), if_neg whole, if_neg (by omega), Int.toNat_natCast, List.drop_left,
        List.take_left, later]
      rfl

/-! ### Reading the parts -/

theorem takeName_append {name : GoString} (named : name.contains 0 = false) (rest : List UInt8) :
    takeName (name ++ [0] ++ rest) = some (name, rest) := by
  induction name with
  | nil => rfl
  | cons b name ih =>
    rw [List.contains_cons, Bool.or_eq_false_iff] at named
    have byte : b ≠ 0 := fun zero => by simp [zero] at named
    simp only [List.cons_append, takeName, if_neg byte, ih named.2, Option.map_some]

theorem length_codes (codes : List Nat) : (codes.flatMap putUint16).length = 2 * codes.length := by
  induction codes with
  | nil => rfl
  | cons code codes ih =>
    have two : (putUint16 code).length = 2 := rfl
    rw [List.flatMap_cons, List.length_append, ih, two, List.length_cons]
    omega

theorem bigEndian_front {n : Nat} (small : n < 65536) (rest : List UInt8) :
    Binary.bigEndian ((putUint16 n ++ rest).take 2) = n := by
  have front : (putUint16 n ++ rest).take 2 = putUint16 n := rfl
  rw [front, bigEndian_putUint16, Nat.mod_eq_of_lt small]

theorem bindParams_encode {codes : List Nat} (counted : codes.length < 65536) {numParams : Nat}
    (few : numParams < 65536) (values : List UInt8) :
    bindParams (encodeCodes codes ++ (putUint16 numParams ++ values)) =
      bindValues numParams values := by
  have two : (putUint16 codes.length).length = 2 := rfl
  have skipped : (encodeCodes codes ++ (putUint16 numParams ++ values)).drop
      (2 + 2 * Binary.bigEndian ((encodeCodes codes ++ (putUint16 numParams ++ values)).take 2)) =
      putUint16 numParams ++ values := by
    rw [encodeCodes, List.append_assoc, bigEndian_front counted, ← List.append_assoc]
    exact List.drop_left' (by rw [List.length_append, two, length_codes])
  have back : (putUint16 numParams ++ values).drop 2 = values := rfl
  rw [bindParams, if_neg (by simp [encodeCodes, putUint16])]
  dsimp only
  rw [skipped, if_neg (by simp [putUint16]), bigEndian_front few, back]

theorem bindValues_some {value : GoString} (measured : value.length < 4294967295) (numParams : Nat)
    (rest : List UInt8) :
    bindValues (numParams + 1) (encodeParam (some value) ++ rest) =
      (bindValues numParams rest).map (some value :: ·) := by
  rw [bindValues, if_neg (encodeParam_long _ _), encodeParam_length measured, encodeParam_value]
  dsimp only
  rw [if_neg (by simp), List.drop_left, List.take_left]
  cases bindValues numParams rest <;> rfl

theorem bindValues_none (numParams : Nat) (rest : List UInt8) :
    bindValues (numParams + 1) (encodeParam none ++ rest) =
      if rest.length < 4294967295 then
        .error (lit "malformed Bind message: incomplete parameter value")
      else (bindValues numParams (rest.drop 4294967295)).map
        (some (rest.take 4294967295) :: ·) := by
  have length : Binary.bigEndian ([255, 255, 255, 255] : List UInt8) = 4294967295 := by decide
  have front : (encodeParam none ++ rest).take 4 = [255, 255, 255, 255] := rfl
  have back : (encodeParam none ++ rest).drop 4 = rest := rfl
  rw [bindValues, if_neg (encodeParam_long _ _), front, back, length]
  dsimp only
  cases bindValues numParams (rest.drop 4294967295) <;> rfl

theorem bindValues_exact_iff {params : List (Option GoString)} (rest : List UInt8)
    (measured : ∀ value, some value ∈ params → value.length < 4294967295) :
    bindValues params.length (params.flatMap encodeParam ++ rest) = .ok params ↔ none ∉ params := by
  induction params with
  | nil => exact iff_of_true rfl List.not_mem_nil
  | cons param params ih =>
    have later := ih fun value mem => measured value (List.mem_cons_of_mem _ mem)
    rw [List.flatMap_cons, List.append_assoc, List.length_cons]
    cases param with
    | none =>
      refine iff_of_false (fun exact => ?_) fun absent => absent List.mem_cons_self
      rw [bindValues_none] at exact
      split at exact
      · cases exact
      · cases taken : bindValues params.length
          (List.drop 4294967295 (params.flatMap encodeParam ++ rest)) <;>
          rw [taken] at exact <;> cases exact
    | some value =>
      rw [bindValues_some (measured value List.mem_cons_self), List.mem_cons, not_or]
      cases read : bindValues params.length (params.flatMap encodeParam ++ rest) with
      | error e =>
        rw [read] at later
        exact iff_of_false (fun exact => by cases exact) fun absent => by cases later.mpr absent.2
      | ok taken =>
        rw [read] at later
        simp only [Except.map, Except.ok.injEq, List.cons.injEq, true_and] at later ⊢
        rw [later]
        exact (and_iff_right (by simp)).symm

/-! ### The handler on an encoded message -/

structure BindMessage.Stored (m : BindMessage) (bound : Handled) : Prop where
  succeeds : bound.1 = none
  statement : lookup m.portalName bound.2.portalStatements = some m.stmtName
  params : lookup m.portalName bound.2.boundParams = some m.params

def BindMessage.store (m : BindMessage) (s : Session) :
    Except GoString (List (Option GoString)) → Handled
  | .error e => (some e, s)
  | .ok params =>
    (none, { s with
      portalStatements := (m.portalName, m.stmtName) :: s.portalStatements
      boundParams := (m.portalName, params) :: s.boundParams })

theorem handleBind_encode (m : BindMessage) {s : Session}
    (prepared : (lookup m.stmtName s.preparedStatements).isSome = true) :
    handleBind m.encode s =
      m.store s
        (bindValues m.params.length (m.params.flatMap encodeParam ++ encodeCodes m.resultCodes))
          := by
  have known : ¬ (lookup m.stmtName s.preparedStatements).isNone = true := by
    rw [Option.isNone_iff_eq_none]
    exact Option.isSome_iff_ne_none.mp prepared
  rw [handleBind, BindMessage.encode, takeName_append m.portal_named]
  dsimp only
  rw [takeName_append m.stmt_named]
  dsimp only
  rw [if_neg known, bindParams_encode m.codes_counted m.params_counted]
  cases bindValues m.params.length (m.params.flatMap encodeParam ++ encodeCodes m.resultCodes)
    <;> rfl

/-- A Bind message for a prepared statement is stored as it was sent exactly when none of
its parameters is NULL. -/
theorem bind_stored_iff (m : BindMessage) (s : Session)
    (prepared : (lookup m.stmtName s.preparedStatements).isSome = true) :
    m.Stored (handleBind m.encode s) ↔ none ∉ m.params := by
  rw [handleBind_encode m prepared, ← bindValues_exact_iff (encodeCodes m.resultCodes) m.measured]
  cases bindValues m.params.length (m.params.flatMap encodeParam ++ encodeCodes m.resultCodes) with
  | error e =>
    exact iff_of_false (fun stored => by cases stored.succeeds) fun exact => by cases exact
  | ok params =>
    constructor
    · intro stored
      have taken := stored.params
      rw [BindMessage.store, lookup_cons, if_pos rfl] at taken
      exact congrArg Except.ok (Option.some.inj taken)
    · intro exact
      refine ⟨rfl, ?_, ?_⟩
      · rw [BindMessage.store, lookup_cons, if_pos rfl]
      · rw [BindMessage.store, lookup_cons, if_pos rfl, Except.ok.inj exact]

theorem text_code : ∀ code ∈ [0], code = 0 := fun _ => List.mem_singleton.mp

theorem name_measured (value : GoString) (mem : some value ∈ [some (lit "ann")]) :
    value.length < 4294967295 := by
  obtain rfl := Option.some.inj (List.mem_singleton.mp mem)
  decide

theorem null_measured (value : GoString) (mem : some value ∈ [(none : Option GoString)]) :
    value.length < 4294967295 := by
  cases List.mem_singleton.mp mem

def bindName : BindMessage where
  portalName := []
  stmtName := lit "s1"
  formatCodes := [0]
  params := [some (lit "ann")]
  resultCodes := [0]
  portal_named := rfl
  stmt_named := rfl
  text := text_code
  codes_counted := Nat.le_of_ble_eq_true rfl
  params_counted := Nat.le_of_ble_eq_true rfl
  measured := name_measured

def bindNull : BindMessage where
  portalName := []
  stmtName := lit "s1"
  formatCodes := [0]
  params := [none]
  resultCodes := [0]
  portal_named := rfl
  stmt_named := rfl
  text := text_code
  codes_counted := Nat.le_of_ble_eq_true rfl
  params_counted := Nat.le_of_ble_eq_true rfl
  measured := null_measured

def preparedClient : Session :=
  { client with preparedStatements := [(lit "s1", lit "INSERT INTO users (name) VALUES ($1)")] }

theorem name_is_stored : bindName.Stored (handleBind bindName.encode preparedClient) :=
  (bind_stored_iff bindName preparedClient rfl).mpr (by decide)

/-- NULL is refused as a value that is cut off. -/
theorem null_is_refused :
    (lookup bindNull.stmtName preparedClient.preparedStatements).isSome = true ∧
      (handleBind bindNull.encode preparedClient).1 =
        some (lit "malformed Bind message: incomplete parameter value") ∧
      ¬ bindNull.Stored (handleBind bindNull.encode preparedClient) := by
  have refused : (handleBind bindNull.encode preparedClient).1 =
      some (lit "malformed Bind message: incomplete parameter value") := by decide
  exact ⟨rfl, refused, fun stored => by rw [stored.succeeds] at refused; cases refused⟩

end TQDBProxy.Postgres
