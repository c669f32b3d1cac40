import TQDBProxy.BackendResponses

/-! The packets that the MariaDB proxy sends to its client: OK and error packets of its
own, and backend responses that are passed on with new sequence numbers. If another
result follows, the status of the last packet announces it; an error packet has no
status. -/

namespace TQDBProxy.MariaDB

open MySqlWire

/-- The last packet of a response with the flag for another result; none where the
status is looked for beyond the end. -/
def announceMore [Driver] (packet : List UInt8) : Option (List UInt8) :=
  match packet with
  | [] => some packet
  | b :: counts =>
    if b = 0x00 then
      match Driver.readLengthEncodedInteger counts with
      | none => none
      | some n₁ =>
        if counts.length < n₁ then none
        else
          match Driver.readLengthEncodedInteger (counts.drop n₁) with
          | none => none
          | some n₂ =>
            some (if 1 + n₁ + n₂ + 2 ≤ packet.length then packet.modify (1 + n₁ + n₂) (· ||| 8) else
              packet)
    else if b = 0xFE then some (if 5 ≤ packet.length then packet.modify 3 (· ||| 8) else packet)
    else some packet

/-- The bytes before the last packet with new sequence numbers, the bytes from the last
packet on, and the last number. -/
def renumber : Nat → UInt8 → List UInt8 → List UInt8 × List UInt8 × UInt8
  | fuel + 1, sequence, l₀ :: l₁ :: l₂ :: _ :: bytes =>
    let length := l₀.toNat + 256 * l₁.toNat + 65536 * l₂.toNat
    let packet := l₀ :: l₁ :: l₂ :: (sequence + 1) :: bytes.take length
    let rest := bytes.drop length
    if rest.length < 4 then ([], packet ++ rest, sequence + 1)
    else
      let (front, last, sequence) := renumber fuel (sequence + 1) rest
      (packet ++ front, last, sequence)
  | _, sequence, bytes => ([], bytes, sequence)

/-- The bytes that are sent and the last sequence number; none where it panics. -/
def forwardBackendResponse [Driver] (sequence : UInt8) (response : List UInt8)
    (moreResults : Bool) :
    Option (List UInt8 × UInt8) :=
  let (front, last, sequence) := renumber response.length sequence response
  if moreResults then
    (announceMore (last.drop 4)).map fun packet => (front ++ last.take 4 ++ packet, sequence)
  else some (front ++ last, sequence)

def renumbered : UInt8 → List Frame → List Frame
  | _, [] => []
  | sequence, f :: later => ⟨sequence + 1, f.payload⟩ :: renumbered (sequence + 1) later

def Numbered : UInt8 → List Frame → Prop
  | _, [] => True
  | sequence, f :: later => f.seq = sequence + 1 ∧ Numbered (sequence + 1) later

variable {format : RowFormat} {p : List UInt8} {more : Bool} {frames : List Frame}
  {sequence : UInt8} {results : List (List UInt8)}

theorem modify_append {α : Type} (front rest : List α) (i : Nat) (f : α → α) :
    (front ++ rest).modify (front.length + i) f = front ++ rest.modify i f := by
  induction front with
  | nil => simp
  | cons y later ih => simp [Nat.add_right_comm, ih]

theorem modify_middle {α : Type} (front : List α) (x : α) (rest : List α) (f : α → α) :
    (front ++ x :: rest).modify front.length f = front ++ f x :: rest :=
  modify_append front (x :: rest) 0 f

theorem map_renumbered (sequence : UInt8) (frames : List Frame) :
    (renumbered sequence frames).map (·.payload) = frames.map (·.payload) := by
  induction frames generalizing sequence with
  | nil => rfl
  | cons f later ih => simp [renumbered, ih]

theorem numbered_renumbered (sequence : UInt8) (frames : List Frame) :
    Numbered sequence (renumbered sequence frames) := by
  induction frames generalizing sequence with
  | nil => trivial
  | cons f later ih => exact ⟨rfl, ih (sequence + 1)⟩

theorem renumber_short {fuel : Nat} {rest : List UInt8} (short : rest.length < 4) :
    renumber fuel sequence rest = ([], rest, sequence) := by
  unfold renumber
  split
  · simp only [List.length_cons] at short
    omega
  · rfl

theorem length_renumber (fuel : Nat) (sequence : UInt8) (bytes : List UInt8) :
    ((renumber fuel sequence bytes).1 ++ (renumber fuel sequence bytes).2.1).length =
      bytes.length := by
  induction fuel generalizing sequence bytes with
  | zero => rfl
  | succ fuel ih =>
    by_cases short : bytes.length < 4
    · rw [renumber_short short]
      rfl
    · match bytes, short with
      | l₀ :: l₁ :: l₂ :: old :: bytes, _ =>
        rw [renumber]
        generalize l₀.toNat + 256 * l₁.toNat + 65536 * l₂.toNat = length
        have later := ih (sequence + 1) (bytes.drop length)
        rw [List.length_append, List.length_drop] at later
        dsimp only
        generalize renumber fuel (sequence + 1) (bytes.drop length) = rest at later ⊢
        obtain ⟨front, last, number⟩ := rest
        dsimp only at later ⊢
        split_ifs
        · simp
        · simp only [List.append_assoc, List.length_append, List.length_cons, List.length_take]
          omega
      | [], short | [_], short | [_, _], short | [_, _, _], short => simp at short

theorem renumber_encodeAll (sequence : UInt8) (small : ∀ f ∈ frames, f.payload.length < 16777216)
    (some : frames ≠ []) {fuel : Nat}
    (enough : frames.length ≤ fuel) :
    ∃ front last, renumbered sequence frames = front ++ [last] ∧
      renumber fuel sequence (encodeAll frames) = (encodeAll front, last.encode, last.seq) := by
  induction frames generalizing sequence fuel with
  | nil => exact absurd rfl some
  | cons f later ih =>
    obtain ⟨fuel, rfl⟩ : ∃ k, fuel = k + 1 := ⟨fuel - 1, by simp at enough; omega⟩
    have length := header_length (small f List.mem_cons_self)
    have bytes : encodeAll (f :: later) = UInt8.ofNat f.payload.length ::
        UInt8.ofNat (f.payload.length / 256) :: UInt8.ofNat (f.payload.length / 65536) :: f.seq ::
          (f.payload ++ encodeAll later) := by
      simp [encodeAll, Frame.encode, header]
    rw [bytes, renumber]
    dsimp only
    rw [length, List.take_left, List.drop_left]
    cases later with
    | nil =>
      refine ⟨[], ⟨sequence + 1, f.payload⟩, rfl, ?_⟩
      simp [encodeAll, Frame.encode, header]
    | cons g rest =>
      have long : ¬ (encodeAll (g :: rest)).length < 4 := by
        have := length_encode g
        simp only [encodeAll, List.flatMap_cons, List.length_append]
        omega
      have later : ∃ front last, renumbered (sequence + 1) (g :: rest) = front ++ [last] ∧
          renumber fuel (sequence + 1) (encodeAll (g :: rest)) =
            (encodeAll front, last.encode, last.seq) :=
        ih (sequence + 1) (fun x mem => small x (List.mem_cons_of_mem _ mem)) (by simp)
          (by simpa using enough)
      obtain ⟨front, last, split, ran⟩ := later
      rw [if_neg long, ran]
      refine ⟨⟨sequence + 1, f.payload⟩ :: front, last, by rw [renumbered, split]; rfl, ?_⟩
      simp [encodeAll, Frame.encode, header]

def lastSeq (sequence : UInt8) (frames : List Frame) : UInt8 :=
  (frames.getLast?.map (·.seq)).getD sequence

theorem forward_plain [Driver] (sequence : UInt8) (fits : ∀ f ∈ frames, f.Fits)
    (filled : frames ≠ []) :
    forwardBackendResponse sequence (encodeAll frames) false =
      some
        (encodeAll (renumbered sequence frames),
          lastSeq sequence (renumbered sequence frames)) := by
  obtain ⟨front, last, split, ran⟩ :=
    renumber_encodeAll sequence fits filled (length_encodeAll frames)
  simp only [forwardBackendResponse, ran, Bool.false_eq_true, if_false]
  rw [split]
  simp [lastSeq, encodeAll]

end TQDBProxy.MariaDB
