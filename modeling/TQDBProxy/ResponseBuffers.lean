import TQDBProxy.ClientResponses
import TQDBProxy.GoSlices

/-! The forwarding of a response as the proxy does it in memory: the response may belong
to the cache, so its bytes are copied, and sequence numbers and the status of the last
packet are written into the copy. -/

namespace TQDBProxy.MariaDB

open MySqlWire GoSlices

/-- The loop over the packets in the copy; none where an index is out of range or where
the rounds do not suffice. -/
def renumberInPlace (respCopy : Slice) :
    Nat → Memory → UInt8 → Nat → Nat → Option (Memory × UInt8 × Nat)
  | 0, _, _, _, _ => none
  | rounds + 1, m, sequence, pos, lastPacketPos =>
    if respCopy.length ≤ pos ∨ respCopy.length < pos + 4 then some (m, sequence, lastPacketPos)
    else do
      let l₀ ← respCopy.get pos m
      let l₁ ← respCopy.get (pos + 1) m
      let l₂ ← respCopy.get (pos + 2) m
      let length := l₀.toNat + 256 * l₁.toNat + 65536 * l₂.toNat
      let m ← respCopy.set (pos + 3) (sequence + 1) m
      renumberInPlace respCopy rounds m (sequence + 1) (pos + 4 + length) pos

def addMoreResults (packet : Slice) (statusOffset : Nat) (m : Memory) : Option Memory := do
  let low ← packet.get statusOffset m
  let high ← packet.get (statusOffset + 1) m
  let status := (low.toUInt16 ||| (high.toUInt16 <<< 8)) ||| 8
  let m ← packet.set statusOffset status.toUInt8 m
  packet.set (statusOffset + 1) (status >>> 8).toUInt8 m

def announceInPlace [Driver] (packet : Slice) (m : Memory) : Option Memory :=
  if packet.length ≤ 4 then some m
  else do
    let header ← packet.get 4 m
    if header = 0x00 then
      let counts ← packet.tail 5
      let n₁ ← Driver.readLengthEncodedInteger (counts.bytes m)
      let counts ← packet.tail (5 + n₁)
      let n₂ ← Driver.readLengthEncodedInteger (counts.bytes m)
      if 5 + n₁ + n₂ + 2 ≤ packet.length then addMoreResults packet (5 + n₁ + n₂) m else some m
    else if header = 0xFE then
      if 9 ≤ packet.length then addMoreResults packet 7 m else some m
    else some m

/-- The memory afterwards, the bytes that are sent and the last sequence number. -/
def forwardBackendResponseInPlace [Driver] (response : Slice) (moreResults : Bool)
    (sequence : UInt8) (m : Memory) :
    Option (Memory × List UInt8 × UInt8) := do
  let (respCopy, m) := clone response m
  let (m, sequence, lastPacketPos) ← renumberInPlace respCopy (respCopy.length + 1) m sequence 0 0
  let m ←
    if moreResults ∧ lastPacketPos < respCopy.length then do
      let packet ← respCopy.tail lastPacketPos
      announceInPlace packet m
    else some m
  some (m, respCopy.bytes m, sequence)

variable {s : Slice} {m : Memory} {front body done rest : List UInt8} {sequence : UInt8}
  {rounds fuel : Nat}

theorem renumberInPlace_stop {pos : Nat} (stop : s.length < pos + 4) (lastPos : Nat) :
    renumberInPlace s (rounds + 1) m sequence pos lastPos = some (m, sequence, lastPos) := by
  rw [renumberInPlace, if_pos (.inr stop)]

theorem get_done (holds : s.Holds m [] (done ++ body)) (i : Nat) :
    s.get (done.length + i) m = body[i]? := by
  rw [holds.get, List.getElem?_append_right (Nat.le_add_right ..), Nat.add_sub_cancel_left]

theorem renumberInPlace_round {l₀ l₁ l₂ old : UInt8} {bytes : List UInt8}
    (holds : s.Holds m [] (done ++ l₀ :: l₁ :: l₂ :: old :: bytes)) (lastPos : Nat) :
    renumberInPlace s (rounds + 1) m sequence done.length lastPos =
      renumberInPlace s rounds (m.write s.array (done ++ l₀ :: l₁ :: l₂ :: (sequence + 1) :: bytes))
        (sequence + 1)
        (done.length + 4 + (l₀.toNat + 256 * l₁.toNat + 65536 * l₂.toNat)) done.length := by
  have size : s.length = done.length + (bytes.length + 4) := by simpa using holds.length
  have written := holds.set (i := done.length + 3) (by simp) (sequence + 1)
  rw [List.set_append_right _ _ (Nat.le_add_right ..), Nat.add_sub_cancel_left,
    List.nil_append] at written
  rw [renumberInPlace, if_neg (by omega), get_done holds 1, get_done holds 2,
    show s.get done.length m = _ from get_done holds 0, written]
  rfl

theorem renumberInPlace_eq (holds : s.Holds m [] (done ++ rest)) (enough : rest.length < rounds)
    (fueled : rest.length ≤ fuel) (sequence : UInt8) (lastPos : Nat) :
    renumberInPlace s rounds m sequence done.length lastPos =
      some
        (m.write s.array
          (done ++ ((renumber fuel sequence rest).1 ++ (renumber fuel sequence rest).2.1)),
        (renumber fuel sequence rest).2.2,
        if rest.length < 4 then lastPos else done.length +
          (renumber fuel sequence rest).1.length) := by
  induction rounds generalizing m sequence done rest fuel lastPos with
  | zero => omega
  | succ rounds ih =>
    have size : s.length = done.length + rest.length := by simpa using holds.length
    by_cases short : rest.length < 4
    · rw [renumberInPlace_stop (by omega), renumber_short short, if_pos short, List.nil_append]
      rw [show m.write s.array (done ++ rest) = m from holds.write_self]
    · obtain ⟨l₀, l₁, l₂, old, bytes, rfl⟩ :
          ∃ l₀ l₁ l₂ old bytes, rest = l₀ :: l₁ :: l₂ :: old :: bytes := by
        match rest, short with
        | l₀ :: l₁ :: l₂ :: old :: bytes, _ => exact ⟨l₀, l₁, l₂, old, bytes, rfl⟩
        | [], short | [_], short | [_, _], short | [_, _, _], short => simp at short
      simp only [List.length_cons] at size enough fueled
      obtain ⟨fuel, rfl⟩ : ∃ k, fuel = k + 1 := ⟨fuel - 1, by omega⟩
      obtain ⟨rounds, rfl⟩ : ∃ k, rounds = k + 1 := ⟨rounds - 1, by omega⟩
      rw [renumberInPlace_round holds, if_neg short, renumber]
      generalize l₀.toNat + 256 * l₁.toNat + 65536 * l₂.toNat = length
      have whole : l₀ :: l₁ :: l₂ :: (sequence + 1) :: bytes =
          (l₀ :: l₁ :: l₂ :: (sequence + 1) :: bytes.take length) ++ bytes.drop length := by simp
      dsimp only
      by_cases last : (bytes.drop length).length < 4
      · rw [if_pos last, renumberInPlace_stop (by rw [List.length_drop] at last; omega), ← whole]
        simp
      · have written :
          s.Holds (m.write s.array (done ++ l₀ :: l₁ :: l₂ :: (sequence + 1) :: bytes)) []
            (done ++ l₀ :: l₁ :: l₂ :: (sequence + 1) :: bytes) := holds.write (by simp)
        rw [whole, ← List.append_assoc] at written
        rw [if_neg last]
        rw [List.length_drop] at last
        have passed : (done ++ l₀ :: l₁ :: l₂ :: (sequence + 1) :: bytes.take length).length =
            done.length + 4 + length := by
          simp only [List.length_append, List.length_cons, List.length_take]
          omega
        have fewer : (bytes.drop length).length ≤ fuel := by
          rw [List.length_drop]
          omega
        have later := ih written (by rw [List.length_drop]; omega) fewer (sequence + 1) done.length
        rw [passed, if_neg (by rw [List.length_drop]; omega), Memory.write_write] at later
        have place : (bytes.take length).length = length := by
          rw [List.length_take]
          omega
        rw [whole, ← List.append_assoc, later]
        simp only [List.append_assoc, List.length_append, List.length_cons, place]
        congr 3
        omega

theorem status_low (low high : UInt8) :
    ((low.toUInt16 ||| (high.toUInt16 <<< 8)) ||| 8).toUInt8 = low ||| 8 := by
  apply UInt8.eq_of_toBitVec_eq
  ext i h
  simp

theorem status_high (low high : UInt8) :
    (((low.toUInt16 ||| (high.toUInt16 <<< 8)) ||| 8) >>> 8).toUInt8 = high := by
  have cleared : ∀ i : Fin 8, (8#16)[8 + i.val] = false := by decide
  apply UInt8.eq_of_toBitVec_eq
  ext i h
  have inWord : 8 + i < 16 := by omega
  have inByte : i < 16 := by omega
  have clear : (8#16)[8 + i] = false := cleared ⟨i, h⟩
  have shifted : ¬ 8 + i < 8 := by omega
  simp [clear, inWord, inByte, shifted, BitVec.getLsbD_eq_getElem h]

theorem set_set_modify {α : Type} (before : List α) (x y : α) (after : List α) (f : α → α) :
    ((before ++ x :: y :: after).set before.length (f x)).set (before.length + 1) y =
      (before ++ x :: y :: after).modify before.length f := by
  rw [modify_middle]
  simp

theorem addMoreResults_eq (holds : s.Holds m front body) {i : Nat} (room : i + 2 ≤ body.length) :
    addMoreResults s i m = some (m.write s.array (front ++ body.modify i (· ||| 8))) := by
  obtain ⟨before, low, high, after, rfl, rfl⟩ : ∃ before low high after,
      body = before ++ low :: high :: after ∧ before.length = i := by
    refine ⟨body.take i, body[i], body[i + 1], body.drop (i + 2), ?_, by simp; omega⟩
    simp
  have first : s.get before.length m = some low := by
    rw [holds.get]
    simp
  have second : s.get (before.length + 1) m = some high := by
    rw [holds.get]
    simp
  have placed :
    s.Holds
      (m.write s.array (front ++ (before ++ low :: high :: after).set before.length (low ||| 8)))
      front ((before ++ low :: high :: after).set before.length (low ||| 8)) :=
        holds.write (by simp)
  rw [addMoreResults, first, second]
  dsimp only [bind, Option.bind]
  rw [status_low, status_high, holds.set (by simp)]
  dsimp only
  rw [placed.set (by simp), Memory.write_write, set_set_modify before low high after (· ||| 8)]

theorem announceInPlace_eq [Driver] (holds : s.Holds m front body) :
    announceInPlace s m = (announceMore (body.drop 4)).map fun q =>
      m.write s.array (front ++ (body.take 4 ++ q)) := by
  by_cases short : body.length ≤ 4
  · rw [announceInPlace, holds.length, if_pos short, List.drop_eq_nil_of_le short,
      List.take_of_length_le short]
    simp [announceMore, holds.write_self]
  · obtain ⟨head, b, counts, rfl, four⟩ : ∃ head b counts, body = head ++ b :: counts ∧
        head.length = 4 := by
      refine ⟨body.take 4, body[4], body.drop 5, ?_, by simp; omega⟩
      simp
    have payload : (head ++ b :: counts).drop 4 = b :: counts := List.drop_left' four
    have header : (head ++ b :: counts).take 4 = head := List.take_left' four
    have size : (head ++ b :: counts).length = counts.length + 5 := by
      simp only [List.length_append, List.length_cons]
      omega
    have rest : ∀ n, (head ++ b :: counts).drop (5 + n) = counts.drop n := by
      intro n
      rw [show 5 + n = 4 + (1 + n) by omega, ← List.drop_drop, payload, Nat.add_comm,
        List.drop_succ_cons]
    have marked :
        ∀ i, (head ++ b :: counts).modify (4 + i) (· ||| 8) = head ++
          (b :: counts).modify i (· ||| 8) := by
      intro i
      rw [← four, modify_append]
    have same : m.write s.array (front ++ (head ++ b :: counts)) = m := holds.write_self
    have found : s.get 4 m = some b := by
      rw [holds.get, List.getElem?_append_right (by omega)]
      simp [four]
    rw [announceInPlace, holds.length, if_neg short, found, payload, header]
    dsimp only [bind, Option.bind, announceMore]
    by_cases ok : b = 0x00
    · obtain ⟨t, cut, -, after⟩ := holds.tail (i := 5) (by omega)
      rw [if_pos ok, if_pos ok, cut]
      dsimp only
      rw [after.bytes, show (head ++ b :: counts).drop 5 = counts from rest 0]
      cases Driver.readLengthEncodedInteger counts with
      | none => rfl
      | some n₁ =>
        dsimp only
        by_cases beyond : counts.length < n₁
        · rw [if_pos beyond, Slice.tail, holds.length, if_neg (by omega)]
          rfl
        · obtain ⟨t, cut, -, after⟩ := holds.tail (i := 5 + n₁) (by omega)
          rw [if_neg beyond, cut]
          dsimp only
          rw [after.bytes, rest n₁]
          cases Driver.readLengthEncodedInteger (counts.drop n₁) with
          | none => rfl
          | some n₂ =>
            dsimp only
            by_cases room : 5 + n₁ + n₂ + 2 ≤ (head ++ b :: counts).length
            · rw [if_pos room, if_pos (by simp only [List.length_cons]; omega),
                addMoreResults_eq holds room,
                show 5 + n₁ + n₂ = 4 + (1 + n₁ + n₂) by omega, marked]
              rfl
            · rw [if_neg room, if_neg (by simp only [List.length_cons]; omega), Option.map_some,
                same]
    · rw [if_neg ok, if_neg ok]
      by_cases eof : b = 0xFE
      · rw [if_pos eof, if_pos eof]
        by_cases long : 9 ≤ (head ++ b :: counts).length
        · rw [if_pos long, if_pos (by simp only [List.length_cons]; omega),
            addMoreResults_eq holds (by omega),
            show (head ++ b :: counts).modify 7 (· ||| 8) = _ from marked 3]
          rfl
        · rw [if_neg long, if_neg (by simp only [List.length_cons]; omega), Option.map_some, same]
      · rw [if_neg eof, if_neg eof, Option.map_some, same]

theorem length_announceMore [Driver] {p q : List UInt8} (announced : announceMore p = some q) :
    q.length = p.length := by
  unfold announceMore at announced
  split at announced
  · cases announced
    rfl
  · rename_i b counts
    split_ifs at announced
    · split at announced
      · cases announced
      · split_ifs at announced
        split at announced
        · cases announced
        · split_ifs at announced <;> cases announced <;> simp
    · cases announced
      simp
    · cases announced
      rfl
    · cases announced
      rfl

theorem forwardInPlace_eq [Driver] {response : Slice} (valid : response.Valid m)
    (moreResults : Bool) (sequence : UInt8) :
    forwardBackendResponseInPlace response moreResults sequence m =
      (forwardBackendResponse sequence (response.bytes m) moreResults).map fun (sent, last) =>
        ((clone response m).2.write m.fresh sent, sent, last) := by
  obtain ⟨holds, -, array⟩ := clone_holds valid
  unfold forwardBackendResponseInPlace forwardBackendResponse
  generalize clone response m = copied at holds array ⊢
  obtain ⟨respCopy, m₁⟩ := copied
  generalize response.bytes m = bytes at holds ⊢
  dsimp only at holds array ⊢
  have size : respCopy.length = bytes.length := holds.length
  have loop :=
    @renumberInPlace_eq respCopy m₁ [] bytes (respCopy.length + 1) bytes.length holds (by omega)
    (Nat.le_refl _) sequence 0
  have long := length_renumber bytes.length sequence bytes
  have place :
    (if bytes.length < 4 then 0 else ([] : List UInt8).length +
      (renumber bytes.length sequence bytes).1.length) =
      (renumber bytes.length sequence bytes).1.length := by
    split_ifs with short
    · rw [renumber_short short]
      rfl
    · exact Nat.zero_add _
  rw [place] at loop
  clear place
  generalize renumber bytes.length sequence bytes = r at loop long ⊢
  obtain ⟨front, last, number⟩ := r
  dsimp only at loop long ⊢
  have written : respCopy.Holds (m₁.write respCopy.array (front ++ last)) [] (front ++ last) :=
    holds.write long
  rw [List.length_nil, List.nil_append] at loop
  rw [loop, ← array]
  dsimp only [bind, Option.bind]
  cases moreResults with
  | false => simp [written.bytes]
  | true =>
    simp only [true_and, if_true]
    by_cases some : front.length < respCopy.length
    · obtain ⟨t, cut, shared, tail⟩ := written.tail (i := front.length) (by simp)
      rw [if_pos some, cut]
      dsimp only
      rw [List.take_left, List.drop_left, List.nil_append] at tail
      rw [announceInPlace_eq tail, shared]
      cases announced : announceMore (last.drop 4) with
      | none => rfl
      | some q =>
        have same := length_announceMore announced
        have size : (front ++ (last.take 4 ++ q)).length = bytes.length := by
          rw [← long]
          simp only [List.length_append, List.length_take, same, List.length_drop]
          omega
        have sent : respCopy.Holds (m₁.write respCopy.array (front ++ (last.take 4 ++ q))) []
            (front ++ (last.take 4 ++ q)) := holds.write size
        dsimp only [Option.map]
        rw [Memory.write_write, sent.bytes, List.append_assoc]
    · obtain rfl : last = [] := by
        rw [List.length_append] at long
        exact List.length_eq_zero_iff.mp (by omega)
      rw [if_neg some, written.bytes]
      simp [announceMore]

/-- The place of the status word in an OK or EOF packet. -/
def StatusAt (p : List UInt8) (i : Nat) : Prop :=
  (∃ rows id : Nat, ∃ counts counts' tail : List UInt8, ∃ low high : UInt8,
    p = 0 :: counts ∧ lenenc counts = some (rows, counts') ∧
      lenenc counts' = some (id, low :: high :: tail) ∧ i + 2 + tail.length = p.length) ∨
  (∃ w₁ w₂ low high, p = [254, w₁, w₂, low, high]) ∧ i = 3

theorem announceMore_statusAt [Driver] {p : List UInt8} {i : Nat} (status : StatusAt p i) :
    announceMore p = some (p.modify i (· ||| 8)) := by
  rcases status with ⟨rows, id, counts, counts', tail, low, high, rfl, first, second, place⟩ |
    ⟨⟨w₁, w₂, low, high, rfl⟩, rfl⟩
  · obtain ⟨n₁, size₁, bound₁, after₁⟩ := Driver.size_of_lenenc first
    obtain ⟨n₂, size₂, bound₂, after₂⟩ := Driver.size_of_lenenc second
    have length₁ := congrArg List.length after₁
    have length₂ := congrArg List.length after₂
    simp only [List.length_drop, List.length_cons] at length₁ length₂ place
    obtain rfl : i = 1 + n₁ + n₂ := by omega
    simp only [announceMore, if_true, size₁]
    rw [if_neg (by omega), after₁, size₂]
    dsimp only
    rw [if_pos (by simp only [List.length_cons]; omega)]
  · rfl

theorem statusAt_of_isOk {more : Bool} {p : List UInt8} (ok : IsOk more p) : ∃ i, StatusAt p i := by
  obtain ⟨rows, id, counts, counts', tail, low, high, rfl, first, second, -⟩ := ok
  obtain ⟨n₁, -, bound₁, after₁⟩ := lenencSize_of_lenenc first
  obtain ⟨n₂, -, bound₂, after₂⟩ := lenencSize_of_lenenc second
  have length₁ := congrArg List.length after₁
  have length₂ := congrArg List.length after₂
  simp only [List.length_drop, List.length_cons] at length₁ length₂
  refine ⟨1 + n₁ + n₂, .inl ⟨rows, id, counts, counts', tail, low, high, rfl, first, second, ?_⟩⟩
  rw [List.length_cons]
  omega

theorem announceMore_isErr [Driver] {p : List UInt8} (err : IsErr p) : announceMore p = some p := by
  cases p with
  | nil => rfl
  | cons b rest =>
    cases err
    rfl

theorem announceMore_last [Driver] {p : List UInt8}
    (ends : (∃ more, IsOk more p) ∨ (∃ more, IsEof more p) ∨ IsErr p) :
    ∃ q, announceMore p = some q ∧ (IsErr p → q = p) ∧ ∀ i, StatusAt p i →
      q = p.modify i (· ||| 8) := by
  obtain ⟨q, announced⟩ : ∃ q, announceMore p = some q := by
    rcases ends with ⟨more, ok⟩ | ⟨more, w₁, w₂, low, high, rfl, -⟩ | err
    · obtain ⟨i, status⟩ := statusAt_of_isOk ok
      exact ⟨_, announceMore_statusAt status⟩
    · exact ⟨_, rfl⟩
    · exact ⟨p, announceMore_isErr err⟩
  refine ⟨q, announced, fun err => ?_, fun i status => ?_⟩
  · exact Option.some.inj (announced.symm.trans (announceMore_isErr err))
  · exact Option.some.inj (announced.symm.trans (announceMore_statusAt status))

theorem renumbered_append (sequence : UInt8) (front : List Frame) (last : Frame) :
    renumbered sequence (front ++ [last]) =
      renumbered sequence front ++ [⟨sequence + UInt8.ofNat (front.length + 1), last.payload⟩] := by
  induction front generalizing sequence with
  | nil => rfl
  | cons f later ih =>
    have number :
        sequence + 1 + UInt8.ofNat (later.length + 1) = sequence +
          UInt8.ofNat (later.length + 1 + 1) := by
      rw [UInt8.ofNat_add (later.length + 1) 1, UInt8.add_assoc, UInt8.add_comm 1]
      rfl
    rw [List.cons_append, renumbered, ih, number]
    rfl

theorem forward_frames [Driver] (front : List Frame) (last : Frame)
    (small : ∀ f ∈ front ++ [last], f.payload.length < 16777216)
    (ends : (∃ more, IsOk more last.payload) ∨ (∃ more, IsEof more last.payload) ∨
      IsErr last.payload)
    (moreResults : Bool) (sequence : UInt8) :
    ∃ q, forwardBackendResponse sequence (encodeAll (front ++ [last])) moreResults =
        some (encodeAll (renumbered sequence (front ++ [⟨last.seq, q⟩])), sequence +
          UInt8.ofNat (front.length + 1)) ∧
      (moreResults = false → q = last.payload) ∧ (IsErr last.payload → q = last.payload) ∧
      (moreResults = true → ∀ i, StatusAt last.payload i →
        q = last.payload.modify i (· ||| 8)) := by
  obtain ⟨before, final, split, ran⟩ :=
    renumber_encodeAll sequence small (by simp) (length_encodeAll (front ++ [last]))
  rw [renumbered_append] at split
  obtain ⟨rfl, same⟩ := List.append_inj' split rfl
  obtain rfl : _ = final := by simpa using same
  cases moreResults with
  | false =>
    refine ⟨last.payload, ?_, fun _ => rfl, fun _ => rfl, by simp⟩
    simp only [forwardBackendResponse, ran, renumbered_append]
    simp [encodeAll]
  | true =>
    obtain ⟨q, announced, err, status⟩ := announceMore_last ends
    refine ⟨q, ?_, by simp, err, fun _ => status⟩
    have length := length_announceMore announced
    simp only [forwardBackendResponse, ran, renumbered_append, if_true]
    simp [encodeAll, Frame.encode, header, announced, length]

/-- A response that ends with an OK, EOF or error packet is sent as it is, with new
sequence numbers and, before another result, with the flag in its last status word. -/
theorem response_forwarded [Driver] (response : Slice) (valid : response.Valid m)
    (front : List Frame) (last : Frame) (bytes : response.bytes m = encodeAll (front ++ [last]))
    (small : ∀ f ∈ front ++ [last], f.payload.length < 16777216)
    (ends : (∃ more, IsOk more last.payload) ∨ (∃ more, IsEof more last.payload) ∨
      IsErr last.payload)
    (moreResults : Bool) (sequence : UInt8) :
    ∃ m' q, forwardBackendResponseInPlace response moreResults sequence m =
        some (m', encodeAll (renumbered sequence (front ++ [⟨last.seq, q⟩])),
          sequence + UInt8.ofNat (front.length + 1)) ∧
      (moreResults = false → q = last.payload) ∧ (IsErr last.payload → q = last.payload) ∧
      (moreResults = true → ∀ i, StatusAt last.payload i → q = last.payload.modify i (· ||| 8)) ∧
      (∀ a < m.fresh, m'.arrays a = m.arrays a) ∧ response.bytes m' = response.bytes m := by
  obtain ⟨q, sent, plain, err, status⟩ := forward_frames front last small ends moreResults sequence
  obtain ⟨-, keeps, -⟩ := clone_holds valid
  have kept : ∀ a < m.fresh, ∀ bytes, ((clone response m).2.write m.fresh bytes).arrays a =
      m.arrays a := by
    intro a used bytes
    rw [← keeps a used]
    simp [Memory.write, Nat.ne_of_lt used]
  rw [forwardInPlace_eq valid, bytes, sent]
  refine ⟨_, q, rfl, plain, err, status, fun a used => kept a used _, ?_⟩
  rw [← bytes, Slice.bytes, kept _ valid.1, Slice.bytes]

def heldResponse : List Frame := [⟨1, [0, 1, 0, 10, 0, 0, 0]⟩, ⟨2, [254, 0, 0, 2, 0]⟩]

def cacheMemory : Memory := ⟨fun _ => encodeAll heldResponse, 1⟩

theorem response_forwarded_cached :
    ∃ m' q, forwardBackendResponseInPlace ⟨0, 0, 20⟩ true 255 cacheMemory =
        some (m', encodeAll [⟨0, [0, 1, 0, 10, 0, 0, 0]⟩, ⟨1, q⟩], 1) ∧
      q = [254, 0, 0, 10, 0] ∧ m'.arrays 0 = encodeAll heldResponse := by
  have eof : IsEof false [254, 0, 0, 2, 0] := ⟨0, 0, 2, 0, rfl, rfl⟩
  obtain ⟨m', q, sent, -, -, status, kept, -⟩ := response_forwarded (m := cacheMemory) ⟨0, 0, 20⟩
    ⟨by decide, by decide⟩ [⟨1, [0, 1, 0, 10, 0, 0, 0]⟩] ⟨2, [254, 0, 0, 2, 0]⟩ rfl (by decide)
    (.inr (.inl ⟨false, eof⟩)) true 255
  exact ⟨m', q, sent, status rfl 3 (.inr ⟨⟨0, 0, 2, 0, rfl⟩, rfl⟩), kept 0 (by decide)⟩

end TQDBProxy.MariaDB
