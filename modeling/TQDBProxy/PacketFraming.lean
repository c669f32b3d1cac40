import TQDBProxy.MySqlWire

/-! Payloads as packets on the wire. A peer cuts a payload into packets of at most
2^24-1 bytes and takes a full packet for one that another follows. The proxy writes
and reads a payload as one packet, so both directions keep exactly the payloads that
do not fill a packet. -/

namespace TQDBProxy

namespace MySqlWire

def maxPacket : Nat := 16777215

def peerFrames (seq : UInt8) (payload : List UInt8) : List Frame :=
  if payload.length < maxPacket then [⟨seq, payload⟩]
  else ⟨seq, payload.take maxPacket⟩ :: peerFrames (seq + 1) (payload.drop maxPacket)
termination_by payload.length
decreasing_by
  simp only [List.length_drop, maxPacket] at *
  omega

def peerRead : Nat → List UInt8 → Option (List UInt8 × List UInt8)
  | 0, _ => none
  | fuel + 1, bytes =>
    match readFrame bytes with
    | none => none
    | some (f, rest) =>
      if f.payload.length < maxPacket then some (f.payload, rest)
      else (peerRead fuel rest).map fun (payload, rest) => (f.payload ++ payload, rest)

def peerReads (bytes : List UInt8) : Option (List UInt8 × List UInt8) := peerRead bytes.length bytes

theorem peerFrames_carries (seq : UInt8) (payload : List UInt8) :
    Carries (peerFrames seq payload) [payload] := by
  induction length : payload.length using Nat.strongRecOn generalizing seq payload with
  | ind n ih =>
    rw [peerFrames]
    split
    · rename_i short
      exact .whole short .nil
    · rename_i full
      have filled : (payload.take maxPacket).length = maxPacket := by
        rw [List.length_take]
        omega
      have shorter : (payload.drop maxPacket).length < n := by
        rw [List.length_drop]
        simp only [maxPacket] at full ⊢
        omega
      have rest := ih _ shorter (seq + 1) (payload.drop maxPacket) rfl
      have whole := Carries.split (f := ⟨seq, payload.take maxPacket⟩) filled rest
      rwa [List.take_append_drop] at whole

theorem encode_of_readFrame {bytes rest : List UInt8} {f : Frame}
    (read : readFrame bytes = some (f, rest)) : f.Fits ∧ bytes = f.encode ++ rest := by
  match bytes with
  | [] | [_] | [_, _] | [_, _, _] => cases read
  | l₀ :: l₁ :: l₂ :: seq :: more =>
    simp only [readFrame] at read
    split at read
    · rename_i enough
      simp only [Option.some.injEq, Prod.mk.injEq] at read
      obtain ⟨rfl, rfl⟩ := read
      have b₀ := l₀.toNat_lt
      have b₁ := l₁.toNat_lt
      have b₂ := l₂.toNat_lt
      have size : (more.take (l₀.toNat + 256 * l₁.toNat + 65536 * l₂.toNat)).length =
          l₀.toNat + 256 * l₁.toNat + 65536 * l₂.toNat := by
        rw [List.length_take]
        omega
      constructor
      · rw [Frame.Fits, size]
        omega
      · have low : UInt8.ofNat (l₀.toNat + 256 * l₁.toNat + 65536 * l₂.toNat) = l₀ := by
          rw [← UInt8.toNat_inj, UInt8.toNat_ofNat']
          omega
        have middle : UInt8.ofNat ((l₀.toNat + 256 * l₁.toNat + 65536 * l₂.toNat) / 256) = l₁ := by
          rw [← UInt8.toNat_inj, UInt8.toNat_ofNat']
          omega
        have high : UInt8.ofNat ((l₀.toNat + 256 * l₁.toNat + 65536 * l₂.toNat) / 65536) = l₂ := by
          rw [← UInt8.toNat_inj, UInt8.toNat_ofNat']
          omega
        simp only [Frame.encode, header, size, low, middle, high, List.cons_append, List.nil_append,
          List.take_append_drop]
    · cases read

theorem carries_of_peerRead {fuel : Nat} {bytes payload rest : List UInt8}
    (read : peerRead fuel bytes = some (payload, rest)) :
    ∃ frames, Carries frames [payload] ∧ bytes = encodeAll frames ++ rest := by
  induction fuel generalizing bytes payload with
  | zero => cases read
  | succ fuel ih =>
    rw [peerRead] at read
    split at read
    · cases read
    · rename_i f after first
      obtain ⟨fits, rfl⟩ := encode_of_readFrame first
      split at read
      · rename_i short
        simp only [Option.some.injEq, Prod.mk.injEq] at read
        obtain ⟨rfl, rfl⟩ := read
        exact ⟨[f], .whole short .nil, by simp [encodeAll]⟩
      · rename_i full
        obtain ⟨⟨more, left⟩, inner, eq⟩ := Option.map_eq_some_iff.mp read
        simp only [Prod.mk.injEq] at eq
        obtain ⟨rfl, rfl⟩ := eq
        obtain ⟨frames, carries, rfl⟩ := ih inner
        have filled : f.payload.length = 16777215 := by
          simp only [Frame.Fits, maxPacket] at fits full
          omega
        exact ⟨f :: frames, .split filled carries, by simp [encodeAll]⟩

theorem length_carried {frames : List Frame} {payloads : List (List UInt8)}
    (carries : Carries frames payloads) :
    (encodeAll frames).length = 4 * frames.length + payloads.flatten.length := by
  induction carries with
  | nil => rfl
  | @whole f later _ _ _ ih =>
    simp only [encodeAll_cons, List.flatten_cons, List.length_append, length_encode,
      List.length_cons] at ih ⊢
    omega
  | @split f later _ _ _ _ ih =>
    simp only [encodeAll_cons, List.flatten_cons, List.length_append, length_encode,
      List.length_cons] at ih ⊢
    omega

theorem Carries.length_lt {f : Frame} {payload : List UInt8} (carries : Carries [f] [payload]) :
    payload.length < maxPacket := by
  cases carries with
  | whole single _ => exact single
  | split _ later => cases later

end MySqlWire

namespace MariaDB

open MySqlWire

def receivePacket (stream : List UInt8) : Option (List UInt8 × UInt8 × List UInt8) :=
  (readFrame stream).map fun (f, rest) => (f.payload, f.seq, rest)

def sendPacket (sequence : UInt8) (payload : List UInt8) : List UInt8 × UInt8 :=
  (header payload.length (sequence + 1) ++ payload, sequence + 1)

/-- From the client; `sequence` becomes that of the packet. -/
def readPacket (stream : List UInt8) : Option (List UInt8 × UInt8 × List UInt8) :=
  receivePacket stream

/-- From the backend; `backendSeq` becomes that of the packet, and a failure resets the backend. -/
def readBackendPacket (stream : List UInt8) : Option (List UInt8 × UInt8 × List UInt8) :=
  receivePacket stream

def writePacket (sequence : UInt8) (payload : List UInt8) : List UInt8 × UInt8 :=
  sendPacket sequence payload

def writeBackendPacket (backendSeq : UInt8) (payload : List UInt8) : List UInt8 × UInt8 :=
  sendPacket backendSeq payload

def ReadsPayload (read : List UInt8 → Option (List UInt8 × UInt8 × List UInt8))
    (payload : List UInt8) : Prop :=
  ∀ seq rest, ∃ last, read (encodeAll (peerFrames seq payload) ++ rest) = some (payload, last, rest)

def WritesPayload (write : UInt8 → List UInt8 → List UInt8 × UInt8) (payload : List UInt8) : Prop :=
  ∀ sequence rest, peerReads ((write sequence payload).1 ++ rest) = some (payload, rest)

theorem receivePacket_carried {f : Frame} {later : List Frame} {payloads : List (List UInt8)}
    (carries : Carries (f :: later) payloads) (rest : List UInt8) :
    receivePacket (encodeAll (f :: later) ++ rest) =
      some (f.payload, f.seq, encodeAll later ++ rest) := by
  have fits := carries.fits f List.mem_cons_self
  rw [receivePacket, encodeAll_cons, List.append_assoc, readFrame_encode fits]
  rfl

theorem receives_iff (payload : List UInt8) :
    ReadsPayload receivePacket payload ↔ payload.length < maxPacket := by
  constructor
  · intro reads
    obtain ⟨last, read⟩ := reads 0 []
    have carries := peerFrames_carries 0 payload
    generalize peerFrames 0 payload = frames at read carries
    cases frames with
    | nil => cases carries
    | cons f later =>
      rw [receivePacket_carried carries] at read
      simp only [Option.some.injEq, Prod.mk.injEq, List.append_nil] at read
      have none : later = [] := by
        have count := length_encodeAll later
        rw [read.2.2] at count
        exact List.eq_nil_of_length_eq_zero (Nat.le_zero.mp count)
      subst none
      exact carries.length_lt
  · intro short seq rest
    have one : peerFrames seq payload = [⟨seq, payload⟩] := by rw [peerFrames, if_pos short]
    have carries := peerFrames_carries seq payload
    rw [one] at carries ⊢
    exact ⟨seq, receivePacket_carried carries rest⟩

theorem sends_iff (payload : List UInt8) :
    WritesPayload sendPacket payload ↔ payload.length < maxPacket := by
  constructor
  · intro writes
    have read := writes 0 []
    obtain ⟨frames, carries, eq⟩ := carries_of_peerRead read
    -- one header was written, so one frame was read
    have sizes := congrArg List.length eq
    simp only [sendPacket, header, List.append_nil, List.length_append, List.length_cons,
      List.length_nil, length_carried carries, List.flatten_cons, List.flatten_nil] at sizes
    obtain ⟨f, rfl⟩ := List.length_eq_one_iff.mp (show frames.length = 1 by omega)
    exact carries.length_lt
  · intro short sequence rest
    have single : Frame.Single ⟨sequence + 1, payload⟩ := short
    have front : (sendPacket sequence payload).1 = Frame.encode ⟨sequence + 1, payload⟩ := rfl
    rw [front, peerReads]
    have size : (Frame.encode ⟨sequence + 1, payload⟩ ++ rest).length =
        (3 + payload.length + rest.length) + 1 := by
      rw [List.length_append, length_encode]
      dsimp only
      omega
    rw [size, peerRead, readFrame_encode single.fits]
    exact if_pos short

structure FramedWhole (payload : List UInt8) : Prop where
  read : ReadsPayload readPacket payload
  readBackend : ReadsPayload readBackendPacket payload
  write : WritesPayload writePacket payload
  writeBackend : WritesPayload writeBackendPacket payload

theorem packet_framing_iff (payload : List UInt8) :
    FramedWhole payload ↔ payload.length < 2 ^ 24 - 1 := by
  constructor
  · intro framed
    exact (receives_iff payload).mp framed.read
  · intro short
    exact ⟨(receives_iff payload).mpr short, (receives_iff payload).mpr short,
      (sends_iff payload).mpr short, (sends_iff payload).mpr short⟩

theorem peerReads_wrapped {payload : List UInt8} (length : payload.length = 16777216)
    (sequence : UInt8) : peerReads (writePacket sequence payload).1 = some ([], payload) := by
  have written : (writePacket sequence payload).1 = 0 :: 0 :: 0 :: (sequence + 1) :: payload := by
    rw [writePacket, sendPacket, length]
    rfl
  rw [written, peerReads, List.length_cons, peerRead]
  rfl

theorem packet_framing_wrapped :
    peerReads (writePacket 0 (List.replicate 16777216 7)).1 = some ([], List.replicate 16777216 7) ∧
      ¬ FramedWhole (List.replicate 16777216 7) := by
  have length : (List.replicate 16777216 (7 : UInt8)).length = 16777216 := List.length_replicate
  refine ⟨peerReads_wrapped length 0, fun framed => ?_⟩
  have short := (receives_iff _).mp framed.read
  rw [length, maxPacket] at short
  omega

end MariaDB

end TQDBProxy
