import TQDBProxy.MySqlWire

/-! How the MariaDB proxy finds the end of a backend response: from the first byte of
each packet and a count of the EOF packets. The stream is what the backend sends
after the command; the reader returns the packets with their headers and leaves the
rest of the stream unread. -/

namespace TQDBProxy.MariaDB

open MySqlWire

/-- The functions of the database driver that the proxy calls on packets. Of
`ReadLengthEncodedInteger` only the reported size is used, and there is none where it
panics; the writers keep the low byte of the status flags. -/
class Driver where
  readLengthEncodedInteger : List UInt8 → Option Nat
  writeOKPacket (affectedRows lastInsertID : UInt64) (status : UInt8) : List UInt8
  writeErrorPacket (message : GoString) : List UInt8
  writeEOFPacket (status : UInt8) : List UInt8
  size_of_lenenc {bytes rest : List UInt8} {n : Nat} : lenenc bytes = some (n, rest) →
    ∃ size, readLengthEncodedInteger bytes = some size ∧ size ≤ bytes.length ∧
      bytes.drop size = rest
  isOk (rows id : UInt64) (status : UInt8) :
    IsOk (moreResults status) (writeOKPacket rows id status)
  isErr (message : GoString) : IsErr (writeErrorPacket message)
  isEof (status : UInt8) : IsEof (moreResults status) (writeEOFPacket status)

def lenencSize : List UInt8 → Option Nat
  | [] => some 1
  | b :: rest =>
    if b = 0xFC then if 2 ≤ rest.length then some 3 else none
    else if b = 0xFD then if 3 ≤ rest.length then some 4 else none
    else if b = 0xFE then if 8 ≤ rest.length then some 9 else none
    else some 1

theorem lenencSize_of_lenenc {bytes rest : List UInt8} {n : Nat}
    (read : lenenc bytes = some (n, rest)) :
    ∃ size, lenencSize bytes = some size ∧ size ≤ bytes.length ∧ bytes.drop size = rest := by
  cases bytes with
  | nil => cases read
  | cons b tail =>
    rw [lenenc] at read
    split_ifs at read with small two three eight
    · cases read
      have ranges : b ≠ 0xFC ∧ b ≠ 0xFD ∧ b ≠ 0xFE := by
        refine ⟨?_, ?_, ?_⟩ <;> rintro rfl <;> exact absurd small (by decide)
      exact ⟨1, by simp [lenencSize, ranges], by simp, rfl⟩
    · cases read
      obtain ⟨rfl, enough⟩ := two
      exact ⟨3, by simp [lenencSize, enough], by simp; omega, by simp⟩
    · cases read
      obtain ⟨rfl, enough⟩ := three
      exact ⟨4, by simp [lenencSize, enough], by simp; omega, by simp⟩
    · cases read
      obtain ⟨rfl, enough⟩ := eight
      exact ⟨9, by simp [lenencSize, enough], by simp; omega, by simp⟩

/-- A driver that writes the packets of protocol 4.1. -/
instance protocol41 : Driver where
  readLengthEncodedInteger := lenencSize
  writeOKPacket affectedRows lastInsertID status :=
    0 :: (lenencBytes affectedRows.toNat ++ (lenencBytes lastInsertID.toNat ++ [status, 0, 0, 0]))
  writeErrorPacket message := 255 :: 81 :: 4 :: (lit "#HY000" ++ message)
  writeEOFPacket status := [254, 0, 0, status, 0]
  size_of_lenenc := lenencSize_of_lenenc
  isOk rows id status :=
    ⟨rows.toNat, id.toNat, _, _, [0, 0], status, 0, rfl, lenenc_bytes rows.toNat_lt _,
      lenenc_bytes id.toNat_lt _, rfl⟩
  isErr _ := rfl
  isEof status := ⟨0, 0, status, 0, rfl, rfl⟩

/-- What the reader does after a packet: reads on with a count of EOF packets,
returns, or panics on a slice beyond the packet. -/
inductive Reading where
  | goOn (eofCount : Nat)
  | done
  | panics
  deriving DecidableEq

def statusReading : List UInt8 → Reading
  | low :: _ :: _ => if moreResults low then .goOn 0 else .done
  | _ => .done

def okReading [Driver] (packet : List UInt8) : Reading :=
  match Driver.readLengthEncodedInteger (packet.drop 1) with
  | none => .panics
  | some n₁ =>
    if packet.length < 1 + n₁ then .panics
    else
      match Driver.readLengthEncodedInteger (packet.drop (1 + n₁)) with
      | none => .panics
      | some n₂ => statusReading (packet.drop (1 + n₁ + n₂))

def eofReading (eofCount : Nat) (packet : List UInt8) : Reading :=
  if 2 ≤ eofCount + 1 then statusReading (packet.drop 3) else .goOn (eofCount + 1)

/-- The switch of `execBackendQuery`. -/
def queryReading [Driver] (eofCount : Nat) (_ : Bool) (packet : List UInt8) : Reading :=
  match packet with
  | [] => .goOn eofCount
  | b :: _ =>
    if b = 0x00 then if eofCount = 0 then okReading packet else .goOn eofCount
    else if b = 0xFF then .done
    else if b = 0xFE ∧ packet.length < 9 then eofReading eofCount packet
    else .goOn eofCount

/-- The switch of `execBackendResponse`, where a first packet may ask for a file. -/
def responseReading [Driver] (eofCount : Nat) (first : Bool) (packet : List UInt8) : Reading :=
  match packet with
  | [] => .goOn eofCount
  | b :: _ =>
    if b = 0x00 then if eofCount = 1 then .goOn eofCount else okReading packet
    else if b = 0xFF then .done
    else if b = 0xFB then if first then .done else .goOn eofCount
    else if b = 0xFE ∧ packet.length < 9 then eofReading eofCount packet
    else .goOn eofCount

inductive Outcome where
  | response (bytes rest : List UInt8)
  | failed
  | panics
  deriving DecidableEq

def readPackets (reading : Nat → Bool → List UInt8 → Reading) :
    Nat → Nat → Bool → List UInt8 → List UInt8 → Outcome
  | 0, _, _, _, _ => .failed
  | fuel + 1, eofCount, first, response, stream =>
    match readFrame stream with
    | none => .failed
    | some (packet, rest) =>
      let response := response ++ packet.encode
      match reading eofCount first packet.payload with
      | .done => .response response rest
      | .panics => .panics
      | .goOn eofCount => readPackets reading fuel eofCount false response rest

def execBackendQuery [Driver] (stream : List UInt8) : Outcome :=
  readPackets queryReading stream.length 0 true [] stream

def execBackendResponse [Driver] (stream : List UInt8) : Outcome :=
  readPackets responseReading stream.length 0 true [] stream

/-- The reader returns exactly after the last of some packets. -/
inductive Consumes (reading : Nat → Bool → List UInt8 → Reading) :
    Nat → Bool → List (List UInt8) → Prop where
  | last {eofCount : Nat} {first : Bool} {p : List UInt8} : reading eofCount first p = .done →
      Consumes reading eofCount first [p]
  | next {eofCount eofCount' : Nat} {first : Bool} {p : List UInt8} {rest : List (List UInt8)} :
      reading eofCount first p = .goOn eofCount' → Consumes reading eofCount' false rest →
      Consumes reading eofCount first (p :: rest)

variable {reading : Nat → Bool → List UInt8 → Reading} {eofCount fuel : Nat} {first : Bool}
  {frames : List Frame} {format : RowFormat} {packets : List (List UInt8)}

theorem readPackets_consumes (fits : ∀ f ∈ frames, f.Fits)
    (consumes : Consumes reading eofCount first (frames.map (·.payload)))
    (enough : frames.length ≤ fuel) (response rest : List UInt8) :
    readPackets reading fuel eofCount first response (encodeAll frames ++ rest) =
      .response (response ++ encodeAll frames) rest := by
  induction frames generalizing fuel eofCount first response with
  | nil => cases consumes
  | cons f later ih =>
    obtain ⟨fuel, rfl⟩ : ∃ k, fuel = k + 1 := ⟨fuel - 1, by simp at enough; omega⟩
    have room : later.length ≤ fuel := by simpa using enough
    rw [encodeAll_cons, List.append_assoc, ← List.append_assoc response, readPackets,
      readFrame_encode (fits f List.mem_cons_self)]
    dsimp only
    generalize ends : later.map (·.payload) = after
    rw [List.map_cons, ends] at consumes
    cases consumes with
    | last done =>
      obtain rfl : later = [] := by simpa using ends
      rw [done]
      simp [encodeAll]
    | next goOn consumes =>
      rw [goOn]
      exact ih (fun g mem => fits g (List.mem_cons_of_mem _ mem)) (ends ▸ consumes) room
        (response ++ f.encode)

theorem readPackets_returns (fits : ∀ f ∈ frames, f.Fits) {n : Nat}
    {read response rest : List UInt8}
    (returned : readPackets reading fuel eofCount first response ((encodeAll frames).take n) =
      .response read rest) :
    ∃ front back, frames = front ++ back ∧ (encodeAll front).length ≤ n ∧
      Consumes reading eofCount first (front.map (·.payload)) ∧
        read = response ++ encodeAll front := by
  induction frames generalizing fuel eofCount first response n with
  | nil => cases fuel <;> simp [readPackets, encodeAll, readFrame] at returned
  | cons f later ih =>
    cases fuel with
    | zero => cases returned
    | succ fuel =>
      rw [encodeAll_cons, readPackets] at returned
      rcases Nat.lt_or_ge n f.encode.length with cut | enough
      · rw [readFrame_cut (fits f List.mem_cons_self) cut] at returned
        cases returned
      · rw [List.take_append, List.take_of_length_le enough,
          readFrame_encode (fits f List.mem_cons_self)] at returned
        dsimp only at returned
        split at returned
        · rename_i done
          cases returned
          exact ⟨[f], later, rfl, by simpa [encodeAll] using enough,
            .last done, by simp [encodeAll]⟩
        · cases returned
        · rename_i goOn
          obtain ⟨front, back, rfl, arrived, consumes, rfl⟩ :=
            ih (fun g mem => fits g (List.mem_cons_of_mem _ mem)) returned
          refine ⟨f :: front, back, rfl, ?_, .next goOn consumes, by simp [encodeAll]⟩
          simp only [encodeAll, List.flatMap_cons, List.length_append] at arrived ⊢
          omega

theorem Consumes.ends {more : List (List UInt8)}
    (consumes : Consumes reading eofCount first packets)
    (longer : Consumes reading eofCount first (packets ++ more)) : more = [] := by
  induction consumes with
  | last done =>
    generalize opened : [_] ++ more = all at longer
    cases longer with
    | last _ => exact (List.cons.inj opened).2
    | next goOn _ =>
      obtain ⟨rfl, -⟩ := List.cons.inj opened
      rw [done] at goOn
      cases goOn
  | next goOn _ ih =>
    rw [List.cons_append] at longer
    generalize after : _ ++ more = all at longer
    cases longer with
    | last done =>
      rw [done] at goOn
      cases goOn
    | next same longer =>
      rw [goOn] at same
      cases same
      exact ih (after ▸ longer)

theorem Consumes.skip {skipped : List (List UInt8)}
    (pass : ∀ p ∈ skipped, reading eofCount false p = .goOn eofCount)
    (consumes : Consumes reading eofCount false packets) :
    Consumes reading eofCount false (skipped ++ packets) := by
  induction skipped with
  | nil => exact consumes
  | cons p later ih =>
    refine .next (pass p List.mem_cons_self) (ih ?_)
    exact fun q mem => pass q (List.mem_cons_of_mem _ mem)

/-- What the reader has to make of each packet; it counts no EOF before the rows of a
result set and one in them. -/
structure Reads (format : RowFormat) (reading : Nat → Bool → List UInt8 → Reading) : Prop where
  ok : ∀ {more p} first, IsOk more p → reading 0 first p = if more then .goOn 0 else .done
  err : ∀ {p} eofCount first, IsErr p → reading eofCount first p = .done
  count : ∀ {columns p} first, IsColumnCount columns p → reading 0 first p = .goOn 0
  definition : ∀ {p}, IsColumnDefinition p → reading 0 false p = .goOn 0
  divide : ∀ {more p}, IsEof more p → reading 0 false p = .goOn 1
  row : ∀ {columns p}, 0 < columns → IsRow format columns p → reading 1 false p = .goOn 1
  eof : ∀ {more p}, IsEof more p → reading 1 false p = if more then .goOn 0 else .done

theorem Reads.resultSet (reads : Reads format reading) {count eof : List UInt8}
    {definitions rows : List (List UInt8)} (set : IsResultSet format count definitions eof rows)
    (consumes : Consumes reading 1 false packets) :
    Consumes reading 0 first (count :: (definitions ++ eof :: (rows ++ packets))) := by
  obtain ⟨more, divided⟩ := set.divided
  refine .next (reads.count first set.columns) (Consumes.skip ?_ ?_)
  · exact fun p mem => reads.definition (set.defined p mem)
  · refine .next (reads.divide divided) (Consumes.skip ?_ consumes)
    exact fun p mem => reads.row set.columns.2 (set.filled p mem)

theorem Reads.consumes (reads : Reads format reading) (response : Response format packets) :
    Consumes reading 0 first packets := by
  induction response generalizing first with
  | ok ok => exact .last (reads.ok first ok)
  | okMore ok _ ih => exact .next (reads.ok first ok) ih
  | err err => exact .last (reads.err 0 first err)
  | resultSet set last =>
    refine reads.resultSet set (.last ?_)
    rcases last with eof | err
    · exact reads.eof eof
    · exact reads.err 1 false err
  | resultSetMore set eof _ ih => exact reads.resultSet set (.next (reads.eof eof) ih)

theorem okReading_of_isOk [Driver] {more : Bool} {p : List UInt8} (ok : IsOk more p) :
    okReading p = if more then .goOn 0 else .done := by
  obtain ⟨rows, id, counts, counts', tail, low, high, rfl, first, second, status⟩ := ok
  obtain ⟨n₁, size₁, bound₁, after₁⟩ := Driver.size_of_lenenc first
  obtain ⟨n₂, size₂, -, after₂⟩ := Driver.size_of_lenenc second
  have rest₁ : (0 :: counts).drop (1 + n₁) = counts' := by
    rw [Nat.add_comm, List.drop_succ_cons, after₁]
  have rest₂ : (0 :: counts).drop (1 + n₁ + n₂) = low :: high :: tail := by
    rw [← List.drop_drop, rest₁, after₂]
  have room : ¬ (0 :: counts).length < 1 + n₁ := by
    simp only [List.length_cons]
    omega
  simp only [okReading, List.drop_one, List.tail_cons, size₁, room, if_false, rest₁, size₂, rest₂,
    statusReading, status]

theorem eofReading_of_isEof {more : Bool} {p : List UInt8} (eof : IsEof more p) :
    eofReading 1 p = if more then .goOn 0 else .done := by
  obtain ⟨w₁, w₂, low, high, rfl, status⟩ := eof
  simp [eofReading, statusReading, status]

theorem columnCount_head {columns : Nat} {p : List UInt8} (count : IsColumnCount columns p) :
    ∃ b tail, p = b :: tail ∧ b ≠ 0 ∧ b ≠ 251 ∧ b ≠ 255 ∧ (b = 254 → 9 ≤ p.length) := by
  obtain ⟨b, tail, rfl, null, err, eof⟩ := lenenc_head count.1
  refine ⟨b, tail, rfl, ?_, null, err, fun same => ?_⟩
  · rintro rfl
    have read : lenenc (0 :: tail) = some (0, tail) := rfl
    obtain ⟨none, -⟩ : columns = 0 ∧ tail = [] := by simpa using (read.symm.trans count.1).symm
    have := count.2
    omega
  · have enough := eof same
    simp only [List.length_cons]
    omega

theorem response_head (response : Response format packets) :
    ∃ b tail later, packets = (b :: tail) :: later ∧ b ≠ 251 ∧ (b = 255 → later = []) := by
  cases response with
  | ok ok =>
    obtain ⟨_, _, counts, _, _, _, _, rfl, _⟩ := ok
    exact ⟨0, counts, _, rfl, by decide, fun same => absurd same (by decide)⟩
  | okMore ok _ =>
    obtain ⟨_, _, counts, _, _, _, _, rfl, _⟩ := ok
    exact ⟨0, counts, _, rfl, by decide, fun same => absurd same (by decide)⟩
  | @err p err =>
    cases p with
    | nil => cases err
    | cons b tail =>
      cases err
      exact ⟨255, tail, [], rfl, by decide, fun _ => rfl⟩
  | resultSet set _ | resultSetMore set _ _ =>
    obtain ⟨b, tail, rfl, -, null, error, -⟩ := columnCount_head set.columns
    exact ⟨b, tail, _, rfl, null, fun same => absurd same error⟩

def noEof (b : UInt8) (tail : List UInt8) : Prop := ¬ (b = 254 ∧ (b :: tail).length < 9)

theorem reads_of_switch [Driver]
    (ok : ∀ first tail, reading 0 first (0 :: tail) = okReading (0 :: tail))
    (err : ∀ eofCount first tail, reading eofCount first (255 :: tail) = .done)
    (eof : ∀ eofCount w₁ w₂ low high, reading eofCount false [254, w₁, w₂, low, high] =
      eofReading eofCount [254, w₁, w₂, low, high])
    (other : ∀ first b tail, b ≠ 0 → b ≠ 251 → b ≠ 255 → noEof b tail →
      reading 0 first (b :: tail) = .goOn 0)
    (row : ∀ columns p, 0 < columns → IsRow format columns p → reading 1 false p = .goOn 1) :
    Reads format reading where
  ok := by
    intro more p first isOk
    rw [← okReading_of_isOk isOk]
    obtain ⟨_, _, counts, _, _, _, _, rfl, _⟩ := isOk
    exact ok first counts
  err := by
    intro p eofCount first isErr
    cases p with
    | nil => cases isErr
    | cons b tail =>
      cases isErr
      exact err eofCount first tail
  count := by
    intro columns p first count
    obtain ⟨b, tail, rfl, zero, null, error, long⟩ := columnCount_head count
    exact other first b tail zero null error fun both => absurd (long both.1) (by omega)
  definition := by
    rintro p ⟨tail, rfl⟩
    exact other false 3 _ (by decide) (by decide) (by decide) fun both => absurd both.1 (by decide)
  divide := by
    rintro more p ⟨w₁, w₂, low, high, rfl, -⟩
    exact eof 0 w₁ w₂ low high
  row := by
    intro columns p
    exact row columns p
  eof := by
    intro more p isEof
    rw [← eofReading_of_isEof isEof]
    obtain ⟨w₁, w₂, low, high, rfl, -⟩ := isEof
    exact eof 1 w₁ w₂ low high

theorem reads_query [Driver] : Reads .text queryReading := by
  refine reads_of_switch (fun _ _ => rfl) (fun _ _ _ => rfl) (fun _ _ _ _ _ => rfl) ?_ ?_
  · intro first b tail zero _ err long
    simp only [queryReading, zero, err, show ¬ (b = 0xFE ∧ (b :: tail).length < 9) from long,
      if_false]
  · intro columns p positive row
    obtain ⟨b, tail, rfl, err, eof⟩ := textRow_head positive row
    have long : ¬ (b = 0xFE ∧ (b :: tail).length < 9) := fun both => absurd (eof both.1) (by omega)
    simp only [queryReading, err, long, if_false]
    split <;> rfl

theorem reads_response [Driver] (format : RowFormat) : Reads format responseReading := by
  refine reads_of_switch (fun _ _ => rfl) (fun _ _ _ => rfl) (fun _ _ _ _ _ => rfl) ?_ ?_
  · intro first b tail zero null err long
    simp only [responseReading, zero, null, err,
      show ¬ (b = 0xFE ∧ (b :: tail).length < 9) from long, if_false]
  · intro columns p positive row
    cases format with
    | text =>
      obtain ⟨b, tail, rfl, err, eof⟩ := textRow_head positive row
      have long : ¬ (b = 0xFE ∧ (b :: tail).length < 9) := fun both =>
        absurd (eof both.1) (by omega)
      simp only [responseReading, err, long, if_false, if_true, Bool.false_eq_true]
      split_ifs <;> rfl
    | binary =>
      cases p with
      | nil => cases row
      | cons b tail =>
        cases row
        rfl

/-- Both readers return exactly the packets of the response at the front of a stream. -/
theorem backend_response_delimited [Driver] {format : RowFormat} {frames : List Frame}
    (rest : List UInt8) (single : ∀ f ∈ frames, f.Single)
    (response : Response format (frames.map (·.payload))) :
    (format = .text → execBackendQuery (encodeAll frames ++ rest) =
      .response (encodeAll frames) rest) ∧
      execBackendResponse (encodeAll frames ++ rest) = .response (encodeAll frames) rest := by
  have enough : frames.length ≤ (encodeAll frames ++ rest).length := by
    have := length_encodeAll frames
    rw [List.length_append]
    omega
  have fits : ∀ f ∈ frames, f.Fits := fun f mem => (single f mem).fits
  constructor
  · rintro rfl
    exact readPackets_consumes fits (reads_query.consumes response) enough [] rest
  · exact readPackets_consumes fits ((reads_response format).consumes response) enough [] rest

/-- An OK that announces more, and then a result set with an empty string, a NULL and a
long string in its only column. -/
def chain : List Frame :=
  [⟨1, [0, 1, 0, 8, 0, 0, 0]⟩, ⟨2, [1]⟩, ⟨3, [3, 100, 101, 102, 0]⟩, ⟨4, [254, 0, 0, 2, 0]⟩,
    ⟨5, [0]⟩, ⟨6, [251]⟩, ⟨7, [254, 1, 0, 0, 0, 0, 0, 0, 0, 65]⟩, ⟨8, [254, 0, 0, 2, 0]⟩]

theorem backend_response_delimited_chain :
    execBackendQuery (encodeAll chain ++ [7, 0, 0]) = .response (encodeAll chain) [7, 0, 0] ∧
      execBackendResponse (encodeAll chain ++ [7, 0, 0]) =
        .response (encodeAll chain) [7, 0, 0] := by
  have announced : IsOk true [0, 1, 0, 8, 0, 0, 0] :=
    ⟨1, 0, [1, 0, 8, 0, 0, 0], [0, 8, 0, 0, 0], [0, 0], 8, 0, rfl, rfl, rfl, rfl⟩
  have eof : IsEof false [254, 0, 0, 2, 0] := ⟨0, 0, 2, 0, rfl, rfl⟩
  have set : IsResultSet .text [1] [[3, 100, 101, 102, 0]] [254, 0, 0, 2, 0]
      [[0], [251], [254, 1, 0, 0, 0, 0, 0, 0, 0, 65]] := by
    have rows :
      ∀ p ∈ [[0], [251], [254, 1, 0, 0, 0, 0, 0, 0, 0, 65]], textRow 1 p = true := by decide
    exact ⟨⟨rfl, by decide⟩, by simp [IsColumnDefinition], ⟨false, eof⟩, rows⟩
  have response : Response .text (chain.map (·.payload)) :=
    .okMore announced (.resultSet set (.inl eof))
  have both := backend_response_delimited [7, 0, 0]
    (by unfold Frame.Single; decide) response
  exact ⟨both.1 rfl, both.2⟩

end TQDBProxy.MariaDB
