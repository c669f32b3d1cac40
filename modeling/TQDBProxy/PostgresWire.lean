import TQDBProxy.PostgresParameters

/-! Messages of the PostgreSQL protocol on a connection: a type byte, which the first message
lacks, a length of 32 bits that counts itself and the payload, and the payload. The
readers make a buffer for each part before they fill it. -/

namespace TQDBProxy.Postgres

/-! ### Reading -/

/-- Whether the stream had ended before the first byte of a buffer or within it. -/
inductive ReadError where
  | eof
  | unexpectedEOF
  deriving DecidableEq

/-- The bytes that a client has still to send, and the sizes of the buffers that were
made to receive what it sent. -/
structure Incoming where
  unread : List UInt8
  buffers : List Nat := []

def readFull (size : Nat) (c : Incoming) : Except ReadError (List UInt8) × Incoming :=
  if size ≤ c.unread.length then
    (.ok (c.unread.take size), { unread := c.unread.drop size, buffers := c.buffers ++ [size] })
  else
    (.error (if c.unread.isEmpty then .eof else .unexpectedEOF),
      { unread := [], buffers := c.buffers ++ [size] })

def uint32 (lengthBuf : List UInt8) : UInt32 := UInt32.ofNat (Binary.bigEndian lengthBuf)

def readStartupMessage (c : Incoming) : Except ReadError (List UInt8) × Incoming :=
  match readFull 4 c with
  | (.error e, c) => (.error e, c)
  | (.ok lengthBuf, c) =>
    match readFull (uint32 lengthBuf - 4).toNat c with
    | (.error e, c) => (.error e, c)
    | (.ok payload, c) => (.ok (lengthBuf ++ payload), c)

structure RawMessage where
  msgType : UInt8
  payload : List UInt8
  deriving DecidableEq

def RawMessage.encode (m : RawMessage) : List UInt8 := encodeMessage m.msgType m.payload

def readMessage (c : Incoming) : Except ReadError RawMessage × Incoming :=
  match readFull 1 c with
  | (.error e, c) => (.error e, c)
  | (.ok typeBuf, c) =>
    match readFull 4 c with
    | (.error e, c) => (.error e, c)
    | (.ok lengthBuf, c) =>
      match readFull (uint32 lengthBuf - 4).toNat c with
      | (.error e, c) => (.error e, c)
      | (.ok payload, c) => (.ok ⟨typeBuf.headD 0, payload⟩, c)

/-- Messages are read until a call fails; every message takes bytes from the stream. -/
def readMessages : Nat → Incoming → List RawMessage × Option ReadError × Incoming
  | 0, c => ([], none, c)
  | calls + 1, c =>
    match readMessage c with
    | (.error e, c) => ([], some e, c)
    | (.ok m, c) =>
      let (later, e, c) := readMessages calls c
      (m :: later, e, c)

/-! ### Writing -/

/-- What has been written; `fails` gives for each call of Write how much of it was
written when it returned an error. -/
structure Outgoing where
  fails : Nat → Option Nat
  writes : Nat := 0
  written : List UInt8 := []

def write (bytes : List UInt8) (c : Outgoing) : Bool × Outgoing :=
  match c.fails c.writes with
  | none => (true, { c with writes := c.writes + 1, written := c.written ++ bytes })
  | some n => (false, { c with writes := c.writes + 1, written := c.written ++ bytes.take n })

def writeMessage (m : RawMessage) (c : Outgoing) : Bool × Outgoing :=
  match write [m.msgType] c with
  | (false, c) => (false, c)
  | (true, c) =>
    match write (putUint32 (m.payload.length + 4)) c with
    | (false, c) => (false, c)
    | (true, c) =>
      match write m.payload c with
      | (false, c) => (false, c)
      | (true, c) => (true, c)

def writeMessages : List RawMessage → Outgoing → Bool × Outgoing
  | [], c => (true, c)
  | m :: later, c =>
    match writeMessage m c with
    | (false, c) => (false, c)
    | (true, c) => writeMessages later c

def encodeMessages (messages : List RawMessage) : List UInt8 :=
  messages.flatMap RawMessage.encode

/-! ### What one call does -/

@[simp] theorem length_putUint32 (n : Nat) : (putUint32 n).length = 4 := rfl

theorem bigEndian_putUint32 (n : Nat) : Binary.bigEndian (putUint32 n) = n % 4294967296 := by
  simp [Binary.bigEndian, putUint32, putUint16]
  omega

theorem readFull_append (front rest : List UInt8) (buffers : List Nat) :
    readFull front.length ⟨front ++ rest, buffers⟩ =
      (.ok front, ⟨rest, buffers ++ [front.length]⟩) := by
  have enough : front.length ≤ (front ++ rest).length := by simp
  simp only [readFull, if_pos enough, List.take_left, List.drop_left]

theorem uint32_putUint32 {n : Nat} (small : n < 4294967296) : (uint32 (putUint32 n)).toNat = n := by
  rw [uint32, bigEndian_putUint32, UInt32.toNat_ofNat', Nat.mod_mod, Nat.mod_eq_of_lt small]

theorem payload_size {length : UInt32} (announced : 4 ≤ length.toNat) :
    (length - 4).toNat = length.toNat - 4 := by
  exact UInt32.toNat_sub_of_le _ _ announced

theorem readMessage_encode (m : RawMessage) (short : m.payload.length < 4294967292)
    (rest : List UInt8) (buffers : List Nat) :
    readMessage ⟨m.encode ++ rest, buffers⟩ =
      (.ok m, ⟨rest, buffers ++ [1] ++ [4] ++ [m.payload.length]⟩) := by
  have size : (uint32 (putUint32 (m.payload.length + 4)) - 4).toNat = m.payload.length := by
    have announced := uint32_putUint32 (n := m.payload.length + 4) (by omega)
    rw [payload_size (by omega), announced, Nat.add_sub_cancel]
  have parts : m.encode ++ rest =
      [m.msgType] ++ (putUint32 (m.payload.length + 4) ++ (m.payload ++ rest)) := by
    simp [RawMessage.encode, encodeMessage]
  have kind :=
    readFull_append [m.msgType] (putUint32 (m.payload.length + 4) ++ (m.payload ++ rest)) buffers
  have length :=
    readFull_append (putUint32 (m.payload.length + 4)) (m.payload ++ rest) (buffers ++ [1])
  have payload := readFull_append m.payload rest (buffers ++ [1] ++ [4])
  rw [List.length_singleton] at kind
  rw [length_putUint32] at length
  rw [parts]
  simp only [readMessage, kind, length, size, payload, List.headD_cons]

theorem readMessages_encode (messages : List RawMessage)
    (short : ∀ m ∈ messages, m.payload.length < 4294967292) (rest : List UInt8)
    (buffers : List Nat) :
    ∃ more, readMessages messages.length ⟨encodeMessages messages ++ rest, buffers⟩ =
      (messages, none, ⟨rest, more⟩) := by
  induction messages generalizing buffers with
  | nil => exact ⟨buffers, rfl⟩
  | cons m later ih =>
    have first :=
      readMessage_encode m (short m List.mem_cons_self) (encodeMessages later ++ rest) buffers
    obtain ⟨more, others⟩ := ih (fun m' mem => short m' (List.mem_cons_of_mem _ mem))
      (buffers ++ [1] ++ [4] ++ [m.payload.length])
    refine ⟨more, ?_⟩
    rw [encodeMessages, List.flatMap_cons, List.append_assoc, List.length_cons, readMessages,
      ← encodeMessages, first]
    dsimp only
    rw [others]

theorem readMessage_nothing (buffers : List Nat) :
    readMessage ⟨[], buffers⟩ = (.error .eof, ⟨[], buffers ++ [1]⟩) := rfl

theorem write_works {fails : Nat → Option Nat} (works : ∀ k, fails k = none) (bytes : List UInt8)
    (writes : Nat) (written : List UInt8) :
    write bytes ⟨fails, writes, written⟩ = (true, ⟨fails, writes + 1, written ++ bytes⟩) := by
  simp only [write, works]

theorem writeMessage_works {c : Outgoing} (works : ∀ k, c.fails k = none) (m : RawMessage) :
    writeMessage m c = (true, ⟨c.fails, c.writes + 3, c.written ++ m.encode⟩) := by
  simp only [writeMessage, write_works works]
  simp [RawMessage.encode, encodeMessage]

theorem writeMessages_works (messages : List RawMessage) {c : Outgoing}
    (works : ∀ k, c.fails k = none) :
    writeMessages messages c =
      (true, ⟨c.fails, c.writes + 3 * messages.length, c.written ++ encodeMessages messages⟩) := by
  induction messages generalizing c with
  | nil => simp [writeMessages, encodeMessages]
  | cons m later ih =>
    have first := writeMessage_works works m
    have others := ih (c := ⟨c.fails, c.writes + 3, c.written ++ m.encode⟩) works
    rw [writeMessages, first]
    dsimp only
    rw [others]
    simp [encodeMessages]
    omega

/-! ### The stream of messages -/

/-- On a connection that takes every byte, the messages that were written are read in
their order, call after call, and the next call finds the end of the stream. -/
theorem messages_written_are_read (messages : List RawMessage)
    (short : ∀ m ∈ messages, m.payload.length < 2 ^ 32 - 4) :
    let sent := writeMessages messages { fails := fun _ => none }
    sent.1 = true ∧ sent.2.written = encodeMessages messages ∧
      ∃ c, readMessages messages.length { unread := encodeMessages messages } =
        (messages, none, c) ∧
        c.unread = [] ∧ (readMessage c).1 = .error .eof := by
  intro sent
  have written : sent = _ :=
    writeMessages_works messages (c := { fails := fun _ => none }) fun _ => rfl
  obtain ⟨more, read⟩ := readMessages_encode messages short [] []
  rw [List.append_nil] at read
  exact ⟨by rw [written], by rw [written, List.nil_append],
    ⟨[], more⟩, read, rfl, congrArg Prod.fst (readMessage_nothing more)⟩

theorem two_messages_written_are_read :
    (readMessages 2 { unread := encodeMessages [⟨81, lit "SELECT 1" ++ [0]⟩, ⟨88, []⟩] }).1 =
      [⟨81, lit "SELECT 1" ++ [0]⟩, ⟨88, []⟩] := by
  have short : ∀ m ∈ [(⟨81, lit "SELECT 1" ++ [0]⟩ : RawMessage), ⟨88, []⟩], m.payload.length <
      2 ^ 32 - 4 :=
    List.forall_mem_cons.mpr ⟨by decide, List.forall_mem_singleton.mpr (by decide)⟩
  obtain ⟨_, _, c, read, _⟩ := messages_written_are_read _ short
  exact congrArg Prod.fst read

/-! ### Lengths that do not count themselves -/

def lengthField (before : Nat) (stream : List UInt8) : Nat :=
  Binary.bigEndian ((stream.drop before).take 4)

/-- Once the length field has been received, the buffer for the payload is no larger than
the length announces beside the field itself, and a length below four is an error. -/
structure LengthRespected {α : Type} (before : Nat) (stream : List UInt8)
    (read : Except ReadError α × Incoming) : Prop where
  bounded : ∀ size ∈ read.2.buffers.drop (before + 1), size + 4 ≤ lengthField before stream
  rejected : before + 4 ≤ stream.length → lengthField before stream < 4 → ∃ e, read.1 = .error e

theorem readFull_buffers (size : Nat) (c : Incoming) :
    (readFull size c).2.buffers = c.buffers ++ [size] := by
  unfold readFull
  split <;> rfl

theorem readFull_short (size : Nat) {c : Incoming} (short : c.unread.length < size) :
    ∃ e, readFull size c = (.error e, ⟨[], c.buffers ++ [size]⟩) := by
  rw [readFull, if_neg (Nat.not_le_of_lt short)]
  exact ⟨_, rfl⟩

theorem readFull_enough (size : Nat) {c : Incoming} (enough : size ≤ c.unread.length) :
    readFull size c = (.ok (c.unread.take size), ⟨c.unread.drop size, c.buffers ++ [size]⟩) := by
  rw [readFull, if_pos enough]

theorem uint32_toNat {lengthBuf : List UInt8} (four : lengthBuf.length = 4) :
    (uint32 lengthBuf).toNat = Binary.bigEndian lengthBuf := by
  match lengthBuf, four with
  | [a, b, c, d], _ =>
    have bounds := And.intro (And.intro a.toNat_lt b.toNat_lt) (And.intro c.toNat_lt d.toNat_lt)
    simp only [uint32, UInt32.toNat_ofNat', Binary.bigEndian, List.foldl_cons, List.foldl_nil]
    omega

theorem payload_announced_iff {length : UInt32} : (length - 4).toNat + 4 ≤ length.toNat ↔
    4 ≤ length.toNat := by
  constructor
  · omega
  · intro announced
    rw [payload_size announced]
    omega

/-- The two readers differ in what they read before the length; after it both make one
buffer, of what the subtraction gives. -/
theorem lengthRespected_iff {α : Type} {before : Nat} {stream : List UInt8}
    {read : Except ReadError α × Incoming} (cut : stream.length < before + 4 →
      read.2.buffers.drop (before + 1) = [])
    (received : before + 4 ≤ stream.length →
      read.2.buffers.drop (before + 1) = [(uint32 ((stream.drop before).take 4) - 4).toNat]) :
    LengthRespected before stream read ↔
      (before + 4 ≤ stream.length → 4 ≤ lengthField before stream) := by
  by_cases whole : before + 4 ≤ stream.length
  · have four : ((stream.drop before).take 4).length = 4 := by
      rw [List.length_take, List.length_drop]
      omega
    have announced :
      (uint32 ((stream.drop before).take 4) - 4).toNat + 4 ≤ lengthField before stream ↔
        4 ≤ lengthField before stream := by
      rw [lengthField, ← uint32_toNat four]
      exact payload_announced_iff
    constructor
    · intro respected _
      refine announced.mp (respected.bounded _ ?_)
      rw [received whole]
      exact List.mem_singleton_self _
    · intro counted
      refine ⟨?_, fun _ low => absurd low (Nat.not_lt_of_le (counted whole))⟩
      rw [received whole]
      exact List.forall_mem_singleton.mpr (announced.mpr (counted whole))
  · refine iff_of_true ⟨?_, fun long => absurd long whole⟩ fun long => absurd long whole
    rw [cut (Nat.lt_of_not_le whole)]
    exact List.forall_mem_nil _

theorem readStartupMessage_cut {stream : List UInt8} (short : stream.length < 4) :
    (readStartupMessage { unread := stream }).2.buffers = [4] := by
  obtain ⟨e, read⟩ := readFull_short 4 (c := { unread := stream }) short
  simp only [readStartupMessage, read, List.nil_append]

theorem readStartupMessage_received {stream : List UInt8} (whole : 4 ≤ stream.length) :
    (readStartupMessage { unread := stream }).2.buffers =
    [4, (uint32 (stream.take 4) - 4).toNat] := by
  have payload := readFull_buffers (uint32 (stream.take 4) - 4).toNat ⟨stream.drop 4, [4]⟩
  simp only [readStartupMessage, readFull_enough 4 (c := { unread := stream }) whole,
    List.nil_append]
  split
  all_goals
    rename_i read
    rw [read] at payload
    exact payload

theorem readMessage_cut {stream : List UInt8} (short : stream.length < 5) :
    (readMessage { unread := stream }).2.buffers.drop 2 = [] := by
  cases stream with
  | nil => rfl
  | cons b stream =>
    have kind := readFull_enough 1 (c := { unread := b :: stream }) (by simp)
    obtain ⟨e, read⟩ := readFull_short 4 (c := ⟨stream, [1]⟩) (Nat.lt_of_succ_lt_succ short)
    simp only [readMessage, kind, List.take_succ_cons, List.drop_succ_cons, List.drop_zero,
      List.nil_append, read]
    rfl

theorem readMessage_received {stream : List UInt8} (whole : 5 ≤ stream.length) :
    (readMessage { unread := stream }).2.buffers.drop 2 =
    [(uint32 ((stream.drop 1).take 4) - 4).toNat] := by
  cases stream with
  | nil => exact absurd whole (by decide)
  | cons b stream =>
    have kind := readFull_enough 1 (c := { unread := b :: stream }) (by simp)
    have length := readFull_enough 4 (c := ⟨stream, [1]⟩) (Nat.le_of_succ_le_succ whole)
    have payload := readFull_buffers (uint32 (stream.take 4) - 4).toNat ⟨stream.drop 4, [1] ++ [4]⟩
    simp only [readMessage, kind, List.take_succ_cons, List.drop_succ_cons, List.drop_zero,
      List.nil_append, length]
    split
    all_goals
      rename_i read
      rw [read] at payload
      rw [payload]
      rfl

/-- A stream keeps the readers within what it announces exactly when it ends before the
length is complete or has a length that counts its own four bytes. -/
theorem length_respected_iff (stream : List UInt8) :
    (LengthRespected 0 stream (readStartupMessage { unread := stream }) ↔
        (4 ≤ stream.length → 4 ≤ lengthField 0 stream)) ∧
      (LengthRespected 1 stream (readMessage { unread := stream }) ↔
        (5 ≤ stream.length → 4 ≤ lengthField 1 stream)) := by
  constructor
  · refine lengthRespected_iff (fun short => ?_) fun whole => ?_
    · rw [readStartupMessage_cut short]
      rfl
    · rw [readStartupMessage_received whole]
      rfl
  · exact lengthRespected_iff readMessage_cut readMessage_received

/-- Four zero bytes make the proxy allocate 4294967292 bytes and wait for them. -/
theorem zero_length_wraps :
    (readStartupMessage { unread := [0, 0, 0, 0] }).2.buffers = [4, 4294967292] ∧
      (readMessage { unread := [81, 0, 0, 0, 3] }).2.buffers = [1, 4, 4294967295] ∧
      ¬ LengthRespected 0 [0, 0, 0, 0] (readStartupMessage { unread := [0, 0, 0, 0] }) ∧
      ¬ LengthRespected 1 [81, 0, 0, 0, 3] (readMessage { unread := [81, 0, 0, 0, 3] }) := by
  refine ⟨by decide, by decide, fun respected => ?_, fun respected => ?_⟩
  · exact absurd (respected.bounded 4294967292 (by decide)) (by decide)
  · exact absurd (respected.bounded 4294967295 (by decide)) (by decide)

end TQDBProxy.Postgres
