import TQDBProxy.ClientResponses
import TQDBProxy.PacketFraming

/-! How the MariaDB proxy relays the replies to COM_STMT_PREPARE, COM_STMT_EXECUTE and
COM_STMT_RESET. Each is given to `forwardBackendResponse`, which expects packets with
their headers; the reply to a reset comes without one. -/

namespace TQDBProxy

namespace MySqlWire

/-- STMT_PREPARE_OK: the statement's id, the counts, a filler and the warnings. -/
def IsPrepareOk (columns params : Nat) (p : List UInt8) : Prop :=
  ∃ i₀ i₁ i₂ i₃ filler w₁ w₂, columns < 65536 ∧ params < 65536 ∧
    p = 0 :: i₀ :: i₁ :: i₂ :: i₃ ::
      (littleEndianBytes 2 columns ++ (littleEndianBytes 2 params ++ [filler, w₁, w₂]))

/-- The definitions of the parameters or of the columns; an EOF ends them if there are any. -/
def IsDefinitions (count : Nat) (packets : List (List UInt8)) : Prop :=
  if count = 0 then packets = []
  else ∃ definitions eof more, packets = definitions ++ [eof] ∧ definitions.length = count ∧
    (∀ p ∈ definitions, IsColumnDefinition p) ∧ IsEof more eof

inductive PrepareResponse : List (List UInt8) → Prop where
  | err {p : List UInt8} : IsErr p → PrepareResponse [p]
  | ok {columns params : Nat} {p : List UInt8} {inputs outputs : List (List UInt8)} :
      IsPrepareOk columns params p → IsDefinitions params inputs → IsDefinitions columns outputs →
      PrepareResponse (p :: (inputs ++ outputs))

variable {frames front back : List Frame} {packets : List (List UInt8)} {p : List UInt8}

theorem Carries.length_le (carries : Carries frames packets) : packets.length ≤ frames.length := by
  induction carries with
  | nil => exact Nat.le_refl 0
  | whole _ _ ih => exact Nat.succ_le_succ ih
  | split _ _ ih => exact Nat.le_succ_of_le ih

theorem Carries.single_of_length (carries : Carries frames packets)
    (length : frames.length = packets.length) : ∀ f ∈ frames, f.Single := by
  induction carries with
  | nil => simp
  | whole single _ ih => exact List.forall_mem_cons.mpr ⟨single, ih (Nat.succ.inj length)⟩
  | split _ later _ =>
    have fewer := later.length_le
    simp only [List.length_cons] at length fewer
    omega

theorem Carries.single_iff (carries : Carries frames packets) :
    (∀ f ∈ frames, f.Single) ↔ frames.length = packets.length := by
  constructor
  · intro single
    rw [carries.payloads single, List.length_map]
  · exact carries.single_of_length

theorem Carries.cons_short (carries : Carries frames (p :: packets))
    (short : p.length < maxPacket) :
    ∃ f later, frames = f :: later ∧ f.payload = p := by
  generalize opened : p :: packets = all at carries
  cases carries with
  | nil => cases opened
  | whole _ _ =>
    obtain ⟨rfl, -⟩ := List.cons.inj opened
    exact ⟨_, _, rfl, rfl⟩
  | split full _ =>
    obtain ⟨rfl, -⟩ := List.cons.inj opened
    rw [List.length_append, maxPacket] at short
    omega

theorem Carries.head_length_le {f : Frame} {later : List Frame}
    (carries : Carries (f :: later) (p :: packets)) : f.payload.length ≤ p.length := by
  cases carries with
  | whole _ _ => exact Nat.le_refl _
  | split _ _ =>
    rw [List.length_append]
    exact Nat.le_add_right _ _

theorem frames_eq_of_encodeAll {others : List Frame} (small : ∀ f ∈ frames, f.Fits)
    (fits : ∀ f ∈ others, f.Fits) (same : encodeAll frames = encodeAll others) :
      frames = others := by
  have whole : encodeAll frames ++ [] = encodeAll others := by rw [List.append_nil, same]
  obtain ⟨back, rfl, none⟩ := frames_of_encodeAll small fits whole
  have count := length_encodeAll back
  rw [← none] at count
  obtain rfl := List.eq_nil_of_length_eq_zero (Nat.le_zero.mp count)
  exact (List.append_nil frames).symm

theorem IsDefinitions.length_eq {count : Nat} (definitions : IsDefinitions count packets) :
    packets.length = if count = 0 then 0 else count + 1 := by
  unfold IsDefinitions at definitions
  split_ifs at definitions ⊢ with none
  · rw [definitions, List.length_nil]
  · obtain ⟨front, eof, more, rfl, rfl, -⟩ := definitions
    rw [List.length_append, List.length_singleton]

end MySqlWire

namespace MariaDB

open MySqlWire

def readFramed : Nat → List UInt8 → Option (List UInt8 × List UInt8)
  | 0, stream => some ([], stream)
  | count + 1, stream =>
    match readBackendPacket stream with
    | none => none
    | some (p, backendSeq, stream) =>
      match readFramed count stream with
      | none => none
      | some (later, stream) => some (header p.length backendSeq ++ p ++ later, stream)

def readDefinitions (count : Nat) (stream : List UInt8) : Option (List UInt8 × List UInt8) :=
  if 0 < count then readFramed (count + 1) stream else some ([], stream)

def prepareResponse (stream : List UInt8) : Outcome :=
  match readBackendPacket stream with
  | none => .failed
  | some (response, backendSeq, stream) =>
    let fullResponse := header response.length backendSeq ++ response
    if response.head? = some 0x00 then
      if response.length < 9 then .panics
      else
        let numCols := Binary.littleEndian ((response.drop 5).take 2)
        let numParams := Binary.littleEndian ((response.drop 7).take 2)
        match readDefinitions numParams stream with
        | none => .failed
        | some (params, stream) =>
          match readDefinitions numCols stream with
          | none => .failed
          | some (columns, stream) => .response (fullResponse ++ params ++ columns) stream
    else .response fullResponse stream

inductive PreparedCommand where
  | prepare
  | execute
  | reset
  deriving DecidableEq

/-- What is passed to `forwardBackendResponse` when the backend sends a stream; of a file
transfer, this is the request. -/
def PreparedCommand.response [Driver] : PreparedCommand → List UInt8 → Option (List UInt8)
  | .prepare, stream =>
    match prepareResponse stream with
    | .response fullResponse _ => some fullResponse
    | .failed | .panics => none
  | .execute, stream =>
    match execBackendResponse stream with
    | .response response _ => some response
    | .failed | .panics => none
  | .reset, stream => (readBackendPacket stream).map fun (response, _, _) => response

def PreparedCommand.received [Driver] (command : PreparedCommand) (sequence : UInt8)
    (stream : List UInt8) :
    Option (List UInt8) :=
  (command.response stream).bind fun response =>
    (forwardBackendResponse sequence response false).map fun (bytes, _) => bytes

def PreparedCommand.WellFormed : PreparedCommand → List (List UInt8) → Prop
  | .prepare, packets => PrepareResponse packets
  | .execute, packets => Response .binary packets
  | .reset, packets => ∃ p, packets = [p] ∧ (IsOk false p ∨ IsErr p)

/-- Bytes that parse as these packets, with consecutive numbers. -/
def Relayed (sequence : UInt8) (packets : List (List UInt8)) (bytes : List UInt8) : Prop :=
  ∃ sent, bytes = encodeAll sent ∧ Carries sent packets ∧ Numbered sequence sent

variable {frames front back : List Frame} {packets : List (List UInt8)} {sequence : UInt8}

theorem carries_renumbered_iff {sequence : UInt8} :
    Carries (renumbered sequence frames) packets ↔ Carries frames packets := by
  induction frames generalizing sequence packets with
  | nil => rfl
  | cons f later ih =>
    constructor
    · intro carries
      cases carries with
      | whole single rest => exact .whole (f := f) single (ih.mp rest)
      | split full rest => exact .split (f := f) full (ih.mp rest)
    · intro carries
      cases carries with
      | whole single rest => exact .whole (f := ⟨sequence + 1, f.payload⟩) single (ih.mpr rest)
      | split full rest => exact .split (f := ⟨sequence + 1, f.payload⟩) full (ih.mpr rest)

theorem relayed_front_iff (sequence : UInt8) (carries : Carries (front ++ back) packets) :
    Relayed sequence packets (encodeAll (renumbered sequence front)) ↔ back = [] := by
  constructor
  · rintro ⟨sent, same, whole, -⟩
    have small : ∀ f ∈ renumbered sequence front, f.Fits := by
      have fits : ∀ p ∈ (renumbered sequence front).map (·.payload), p.length < 16777216 := by
        rw [map_renumbered]
        intro p mem
        obtain ⟨f, here, rfl⟩ := List.mem_map.mp mem
        exact carries.fits f (List.mem_append_left _ here)
      exact fun f mem => fits _ (List.mem_map_of_mem mem)
    obtain rfl := frames_eq_of_encodeAll small whole.fits same
    obtain ⟨later, more, rest⟩ := (carries_renumbered_iff.mp whole).append carries
    obtain rfl : later = [] := List.append_right_eq_self.mp more.symm
    cases rest
    rfl
  · rintro rfl
    rw [List.append_nil] at carries
    exact ⟨_, rfl, carries_renumbered_iff.mpr carries, numbered_renumbered sequence front⟩

theorem received_eq [Driver] (sequence : UInt8) {command : PreparedCommand} {stream : List UInt8}
    (filled : front ≠ []) (fits : ∀ f ∈ front, f.Fits)
    (response : command.response stream = some (encodeAll front)) :
    command.received sequence stream = some (encodeAll (renumbered sequence front)) := by
  rw [PreparedCommand.received, response, Option.bind_some, forward_plain sequence fits filled]
  rfl

/-! ### The reply to a prepare -/

theorem readBackendPacket_encodeAll {f : Frame} (fits : f.Fits) (later : List Frame) :
    readBackendPacket (encodeAll (f :: later)) = some (f.payload, f.seq, encodeAll later) := by
  rw [readBackendPacket, receivePacket, encodeAll_cons, readFrame_encode fits]
  rfl

theorem readFramed_encodeAll {front : List Frame} (fits : ∀ f ∈ front, f.Fits) (back : List Frame) :
    readFramed front.length (encodeAll (front ++ back)) =
      some (encodeAll front, encodeAll back) := by
  induction front with
  | nil => rfl
  | cons f later ih =>
    rw [List.length_cons, List.cons_append, readFramed,
      readBackendPacket_encodeAll (fits f List.mem_cons_self)]
    dsimp only
    rw [ih fun g mem => fits g (List.mem_cons_of_mem _ mem)]
    rfl

theorem readDefinitions_encodeAll {count : Nat} {inputs : List (List UInt8)}
    (definitions : IsDefinitions count inputs) (enough : inputs.length ≤ frames.length)
    (fits : ∀ f ∈ frames, f.Fits) :
    readDefinitions count (encodeAll frames) =
      some (encodeAll (frames.take inputs.length), encodeAll (frames.drop inputs.length)) := by
  have length := definitions.length_eq
  have taken := List.length_take_of_le enough
  have early : ∀ f ∈ frames.take inputs.length, f.Fits := fun f mem =>
    fits f (List.mem_of_mem_take mem)
  have read := readFramed_encodeAll early (frames.drop inputs.length)
  rw [taken, List.take_append_drop] at read
  rw [readDefinitions]
  rcases Nat.eq_zero_or_pos count with rfl | counted
  · rw [if_pos rfl] at length
    rw [if_neg (Nat.lt_irrefl 0), length, List.take_zero, List.drop_zero]
    rfl
  · rw [if_neg (Nat.ne_of_gt counted)] at length
    rw [if_pos counted, ← length, read]

theorem prepareResponse_encodeAll (carries : Carries frames packets)
    (reply : PrepareResponse packets) :
    prepareResponse (encodeAll frames) =
      .response (encodeAll (frames.take packets.length))
        (encodeAll (frames.drop packets.length)) := by
  have fits := carries.fits
  cases reply with
  | @err p err =>
    obtain ⟨tail, rfl⟩ : ∃ tail, p = 255 :: tail := List.head?_eq_some_iff.mp err
    obtain ⟨f, later, rest, rfl, payload⟩ := carries.head
    rw [prepareResponse, readBackendPacket_encodeAll (fits f List.mem_cons_self)]
    dsimp only
    rw [if_neg (by simp [payload])]
    simp [encodeAll, Frame.encode]
  | @ok columns params p inputs outputs ok defined returned =>
    obtain ⟨i₀, i₁, i₂, i₃, filler, w₁, w₂, fewColumns, fewParams, rfl⟩ := ok
    have enough := carries.length_le
    obtain ⟨f, later, rfl, payload⟩ := carries.cons_short (by simp [littleEndianBytes, maxPacket])
    simp only [List.length_cons, List.length_append, Nat.succ_le_succ_iff] at enough
    have later_fits : ∀ g ∈ later, g.Fits := fun g mem => fits g (List.mem_cons_of_mem _ mem)
    have first := readDefinitions_encodeAll defined (by omega) later_fits
    have left : outputs.length ≤ (later.drop inputs.length).length := by
      rw [List.length_drop]
      omega
    have second := readDefinitions_encodeAll returned left
      fun g mem => later_fits g (List.mem_of_mem_drop mem)
    have columnBytes : Binary.littleEndian (littleEndianBytes 2 columns) = columns :=
      littleEndian_bytes fewColumns
    have paramBytes : Binary.littleEndian (littleEndianBytes 2 params) = params :=
      littleEndian_bytes fewParams
    rw [prepareResponse, readBackendPacket_encodeAll (fits f List.mem_cons_self)]
    dsimp only
    rw [if_pos (by rw [payload]; rfl), if_neg (by rw [payload]; simp [littleEndianBytes])]
    have numCols : (f.payload.drop 5).take 2 = littleEndianBytes 2 columns := by
      rw [payload]
      rfl
    have numParams : (f.payload.drop 7).take 2 = littleEndianBytes 2 params := by
      rw [payload]
      rfl
    rw [numCols, numParams, columnBytes, paramBytes, first]
    dsimp only
    rw [second]
    simp [encodeAll, Frame.encode, List.take_add, List.drop_drop]

theorem prepare_relayed_iff [Driver] (carries : Carries frames packets)
    (reply : PrepareResponse packets) :
    (∃ bytes, PreparedCommand.prepare.received sequence (encodeAll frames) = some bytes ∧
      Relayed sequence packets bytes) ↔ ∀ f ∈ frames, f.Single := by
  have answered : packets ≠ [] := by
    rintro rfl
    cases reply
  have enough := carries.length_le
  have front : frames.take packets.length ≠ [] := by
    intro none
    have length := congrArg List.length none
    rw [List.length_take_of_le enough] at length
    exact answered (List.eq_nil_of_length_eq_zero length)
  have response : PreparedCommand.prepare.response (encodeAll frames) =
      some (encodeAll (frames.take packets.length)) := by
    rw [PreparedCommand.response, prepareResponse_encodeAll carries reply]
  have received := received_eq sequence front
    (fun f mem => carries.fits f (List.mem_of_mem_take mem)) response
  have split : Carries (frames.take packets.length ++ frames.drop packets.length) packets := by
    rwa [List.take_append_drop]
  have whole := relayed_front_iff sequence split
  rw [received, carries.single_iff]
  simp only [Option.some.injEq, exists_eq_left', whole, List.drop_eq_nil_iff]
  omega

/-! ### The replies to an execute and to a reset -/

theorem execBackendResponse_returns [Driver] {read rest : List UInt8} (fits : ∀ f ∈ frames, f.Fits)
    (returned : execBackendResponse (encodeAll frames) = .response read rest) :
    ∃ front back, frames = front ++ back ∧ front ≠ [] ∧
      Consumes responseReading 0 true (front.map (·.payload)) ∧ read = encodeAll front := by
  rw [execBackendResponse, ← List.take_length (l := encodeAll frames)] at returned
  obtain ⟨front, back, split, -, consumes, same⟩ := readPackets_returns fits returned
  refine ⟨front, back, split, ?_, consumes, same⟩
  rintro rfl
  cases consumes

theorem execBackendResponse_consumes [Driver] (fits : ∀ f ∈ frames, f.Fits)
    (consumes : Consumes responseReading 0 true (frames.map (·.payload))) :
    execBackendResponse (encodeAll frames) = .response (encodeAll frames) [] ∧ frames ≠ [] := by
  have read := readPackets_consumes fits consumes (length_encodeAll frames) [] []
  rw [List.append_nil, List.nil_append] at read
  refine ⟨read, ?_⟩
  rintro rfl
  cases consumes

theorem execute_relayed_iff [Driver] (carries : Carries frames packets) :
    (∃ bytes, PreparedCommand.execute.received sequence (encodeAll frames) = some bytes ∧
      Relayed sequence packets bytes) ↔
        Consumes responseReading 0 true (frames.map (·.payload)) := by
  constructor
  · rintro ⟨bytes, received, relayed⟩
    cases outcome : execBackendResponse (encodeAll frames) with
    | failed => simp [PreparedCommand.received, PreparedCommand.response, outcome] at received
    | panics => simp [PreparedCommand.received, PreparedCommand.response, outcome] at received
    | response read rest =>
      obtain ⟨front, back, rfl, filled, consumes, rfl⟩ :=
        execBackendResponse_returns carries.fits outcome
      have response : PreparedCommand.execute.response (encodeAll (front ++ back)) =
          some (encodeAll front) := by
        rw [PreparedCommand.response, outcome]
      rw [received_eq sequence filled (fun f mem => carries.fits f (List.mem_append_left _ mem))
        response] at received
      obtain rfl := Option.some.inj received
      obtain rfl := (relayed_front_iff sequence carries).mp relayed
      rwa [List.append_nil]
  · intro consumes
    obtain ⟨read, filled⟩ := execBackendResponse_consumes carries.fits consumes
    have response :
        PreparedCommand.execute.response (encodeAll frames) = some (encodeAll frames) := by
      rw [PreparedCommand.response, read]
    refine ⟨_, received_eq sequence filled carries.fits response, ?_⟩
    rw [← List.append_nil frames] at carries
    exact (relayed_front_iff sequence carries).mpr rfl

theorem reset_unrelayed [Driver] (carries : Carries frames packets) (one : packets.length = 1)
    {bytes : List UInt8} (received : PreparedCommand.reset.received sequence (encodeAll frames) =
      some bytes) :
    ¬ Relayed sequence packets bytes := by
  obtain ⟨p, rfl⟩ := List.length_eq_one_iff.mp one
  rintro ⟨sent, rfl, whole, -⟩
  cases frames with
  | nil => cases carries
  | cons f later =>
    have prefixed := carries.head_length_le
    have read := readBackendPacket_encodeAll (carries.fits f List.mem_cons_self) later
    have size := length_renumber f.payload.length sequence f.payload
    generalize ran : renumber f.payload.length sequence f.payload = renumbered at size
    obtain ⟨early, final, last⟩ := renumbered
    dsimp only at size
    have wireSize := length_carried whole
    have least := whole.length_le
    simp only [PreparedCommand.received, PreparedCommand.response, read, Option.map_some,
      Option.bind_some,
      forwardBackendResponse, ran, Bool.false_eq_true, if_false, Option.some.injEq] at received
    rw [← received, size] at wireSize
    simp only [List.flatten_singleton, List.length_singleton] at wireSize least
    omega

theorem prepared_replies_relayed_iff [Driver] (command : PreparedCommand) (sequence : UInt8)
    {frames : List Frame} {packets : List (List UInt8)} (reply : command.WellFormed packets)
    (carries : Carries frames packets) :
    (∃ bytes, command.received sequence (encodeAll frames) = some bytes ∧
      Relayed sequence packets bytes) ↔
      match command with
      | .prepare => ∀ f ∈ frames, f.Single
      | .execute => Consumes responseReading 0 true (frames.map (·.payload))
      | .reset => False := by
  cases command with
  | prepare => exact prepare_relayed_iff carries reply
  | execute => exact execute_relayed_iff carries
  | reset =>
    obtain ⟨p, rfl, -⟩ := reply
    refine iff_of_false ?_ id
    rintro ⟨bytes, received, relayed⟩
    exact reset_unrelayed carries rfl received relayed

def preparedSelect : List (List UInt8) :=
  [[0, 7, 0, 0, 0, 1, 0, 1, 0, 0, 0, 0], [3, 100, 101, 102, 0], [254, 0, 0, 2, 0],
    [3, 100, 101, 102, 1, 97], [254, 0, 0, 2, 0]]

theorem preparedSelect_wellFormed : PrepareResponse preparedSelect := by
  have ended : IsEof false [254, 0, 0, 2, 0] := ⟨0, 0, 2, 0, rfl, rfl⟩
  have input : IsDefinitions 1 [[3, 100, 101, 102, 0], [254, 0, 0, 2, 0]] :=
    ⟨[[3, 100, 101, 102, 0]], _, false, rfl, rfl, by simp [IsColumnDefinition], ended⟩
  have output : IsDefinitions 1 [[3, 100, 101, 102, 1, 97], [254, 0, 0, 2, 0]] :=
    ⟨[[3, 100, 101, 102, 1, 97]], _, false, rfl, rfl, by simp [IsColumnDefinition], ended⟩
  exact .ok ⟨7, 0, 0, 0, 0, 0, 0, by decide, by decide, rfl⟩ input output

theorem prepared_replies_relayed_select :
    ∃ bytes, PreparedCommand.prepare.received 0 (encodeAll (preparedSelect.map (Frame.mk 1))) =
      some bytes ∧
      Relayed 0 preparedSelect bytes := by
  have single : ∀ f ∈ preparedSelect.map (Frame.mk 1), f.Single := by
    simp [preparedSelect, Frame.Single]
  exact (prepared_replies_relayed_iff .prepare 0 preparedSelect_wellFormed (.of_single single)).mpr
    single

/-- The OK to a reset: its fourth byte is overwritten with the sequence number. -/
theorem reset_reply_unframed :
    PreparedCommand.reset.WellFormed [[0, 0, 0, 2, 0, 0, 0]] ∧
      PreparedCommand.reset.received 0 (encodeAll [⟨1, [0, 0, 0, 2, 0, 0, 0]⟩]) =
        some [0, 0, 0, 1, 0, 0, 0] ∧
      ¬ Relayed 0 [[0, 0, 0, 2, 0, 0, 0]] [0, 0, 0, 1, 0, 0, 0] := by
  have carries : Carries [⟨1, [0, 0, 0, 2, 0, 0, 0]⟩] [[0, 0, 0, 2, 0, 0, 0]] :=
    .of_single (by simp [Frame.Single])
  have received : PreparedCommand.reset.received 0 (encodeAll [⟨1, [0, 0, 0, 2, 0, 0, 0]⟩]) =
      some [0, 0, 0, 1, 0, 0, 0] := by decide
  have ok : IsOk false [0, 0, 0, 2, 0, 0, 0] := ⟨0, 0, _, _, _, _, _, rfl, rfl, rfl, rfl⟩
  exact ⟨⟨_, rfl, .inl ok⟩, received, reset_unrelayed carries rfl received⟩

end MariaDB

end TQDBProxy
