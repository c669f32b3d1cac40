import TQDBProxy.MariaDBSession
import TQDBProxy.PreparedReplies

/-! The transfer of a local file through the MariaDB proxy, as a dialogue of three parties. The
backend asks for a file and is silent until it has received an empty packet; the client sends
nothing before it has the whole request; the proxy copies packet by packet. -/

namespace TQDBProxy

namespace MySqlWire

def hasEmpty : Nat → List UInt8 → Bool
  | 0, _ => false
  | fuel + 1, bytes =>
    match peerReads bytes with
    | none => false
    | some (payload, rest) => payload.isEmpty || hasEmpty fuel rest

variable {frames : List Frame} {packets : List (List UInt8)} {p : List UInt8}

theorem peerRead_carries (carries : Carries frames (p :: packets)) {fuel : Nat}
    (enough : frames.length ≤ fuel) :
    ∃ back, back.length < frames.length ∧ Carries back packets ∧
      peerRead fuel (encodeAll frames) = some (p, encodeAll back) := by
  generalize opened : p :: packets = all at carries
  induction carries generalizing p packets fuel with
  | nil => cases opened
  | @whole f later _ single rest _ =>
    obtain ⟨rfl, rfl⟩ := List.cons.inj opened
    obtain ⟨fuel, rfl⟩ : ∃ k, fuel = k + 1 :=
      ⟨fuel - 1, by simp only [List.length_cons] at enough; omega⟩
    refine ⟨later, Nat.lt_succ_self _, rest, ?_⟩
    rw [peerRead, encodeAll_cons, readFrame_encode single.fits]
    exact if_pos single
  | @split f later q _ full rest ih =>
    obtain ⟨rfl, rfl⟩ := List.cons.inj opened
    simp only [List.length_cons] at enough
    obtain ⟨fuel, rfl⟩ : ∃ k, fuel = k + 1 := ⟨fuel - 1, by omega⟩
    obtain ⟨back, shorter, carried, read⟩ := ih (Nat.le_of_succ_le_succ enough) rfl
    have fits : f.Fits := by
      rw [Frame.Fits, full]
      decide
    refine ⟨back, Nat.lt_succ_of_lt shorter, carried, ?_⟩
    rw [peerRead, encodeAll_cons, readFrame_encode fits]
    dsimp only
    rw [if_neg (by rw [full, maxPacket]; omega), read]
    rfl

theorem hasEmpty_carries (carries : Carries frames packets) (empty : [] ∈ packets) {fuel : Nat}
    (enough : frames.length ≤ fuel) : hasEmpty fuel (encodeAll frames) = true := by
  induction fuel generalizing frames packets with
  | zero =>
    obtain rfl := List.eq_nil_of_length_eq_zero (Nat.le_zero.mp enough)
    cases carries
    cases empty
  | succ fuel ih =>
    cases packets with
    | nil => cases empty
    | cons p packets =>
      obtain ⟨back, shorter, carried, read⟩ := peerRead_carries carries (length_encodeAll frames)
      rw [hasEmpty, peerReads, read]
      rcases List.mem_cons.mp empty with rfl | later
      · rfl
      · exact Bool.or_eq_true_iff.mpr (.inr (ih carried later (by omega)))

theorem Carries.dropLast_filled_iff (carries : Carries frames packets) :
    (∀ f ∈ frames.dropLast, f.payload ≠ []) ↔ ∀ p ∈ packets.dropLast, p.length % maxPacket ≠ 0 := by
  induction carries with
  | nil => simp
  | @whole f later packets single rest ih =>
    cases rest with
    | nil => simp
    | whole _ _ | split _ _ =>
      have short : f.payload.length % maxPacket ≠ 0 ↔ f.payload ≠ [] := by
        rw [Nat.mod_eq_of_lt (show f.payload.length < maxPacket from single), Ne,
          List.length_eq_zero_iff]
      rw [List.dropLast_cons_cons, List.dropLast_cons_cons, List.forall_mem_cons,
        List.forall_mem_cons, ih, short]
  | @split f later p packets full rest ih =>
    have filled : f.payload ≠ [] := by
      intro none
      rw [none] at full
      cases full
    have wrapped : (f.payload ++ p).length % maxPacket = p.length % maxPacket := by
      rw [List.length_append, full]
      exact Nat.add_mod_left _ _
    have front : (f :: later).dropLast = f :: later.dropLast := by
      apply List.dropLast_cons_of_ne_nil
      rintro rfl
      cases rest
    rw [front, List.forall_mem_cons, ih, and_iff_right filled]
    cases packets with
    | nil => simp
    | cons q others =>
      rw [List.dropLast_cons_cons, List.dropLast_cons_cons, List.forall_mem_cons,
        List.forall_mem_cons, wrapped]

theorem Carries.exists_empty (carries : Carries frames packets) (empty : [] ∈ packets) :
    ∃ f ∈ frames, f.payload = [] := by
  induction carries with
  | nil => cases empty
  | @whole f _ _ _ _ ih =>
    rcases List.mem_cons.mp empty with here | later
    · exact ⟨f, List.mem_cons_self, here.symm⟩
    · obtain ⟨g, mem, none⟩ := ih later
      exact ⟨g, List.mem_cons_of_mem _ mem, none⟩
  | @split f _ p _ full _ ih =>
    rcases List.mem_cons.mp empty with here | later
    · rw [(List.append_eq_nil_iff.mp here.symm).1] at full
      cases full
    · obtain ⟨g, mem, none⟩ := ih (List.mem_cons_of_mem _ later)
      exact ⟨g, List.mem_cons_of_mem _ mem, none⟩

end MySqlWire

namespace LocalInfile

open MySqlWire MariaDB

/-- How the statement came; further statements of its text may follow a COM_QUERY. -/
inductive QueryPath where
  | query (moreResults : Bool)
  | execute
  deriving DecidableEq

def QueryPath.reading [Driver] : QueryPath → Nat → Bool → List UInt8 → Reading
  | .query _ => queryReading
  | .execute => responseReading

def QueryPath.moreResults : QueryPath → Bool
  | .query moreResults => moreResults
  | .execute => false

/-- The request of the backend, the file of the client up to the empty packet, and the final
answer of the backend. -/
structure Peers where
  request : Frame
  fits : request.Fits
  asks : request.payload.head? = some 0xFB
  contents : List (List UInt8)
  filled : ∀ p ∈ contents, p ≠ []
  file : List Frame
  carried : Carries file (contents ++ [[]])
  answer : List (List UInt8)
  final : List Frame
  answered : Carries final answer

namespace Peers

def clientSends (x : Peers) (received : List UInt8) : List UInt8 :=
  match peerReads received with
  | none => []
  | some (packet, _) => if packet.head? = some 0xFB then encodeAll x.file else []

def backendSends (x : Peers) (received : List UInt8) : List UInt8 :=
  if hasEmpty received.length received then encodeAll x.final else []

end Peers

/-- What the proxy does, in order. It waits where it reads a packet that nobody sends. -/
inductive Traffic where
  | fromBackend (response : List UInt8)
  | toClient (bytes : List UInt8)
  | fromClient (packet : List UInt8)
  | toBackend (bytes : List UInt8)
  | waits
  | panics
  deriving DecidableEq

def toBackend : List Traffic → List UInt8
  | [] => []
  | .toBackend bytes :: later => bytes ++ toBackend later
  | _ :: later => toBackend later

def forwarded [Driver] (sequence : UInt8) (response : List UInt8) (moreResults : Bool) :
    List Traffic :=
  match forwardBackendResponse sequence response moreResults with
  | some (bytes, _) => [.toClient bytes]
  | none => [.panics]

def copyFile : Nat → UInt8 → List UInt8 → List Traffic × Option UInt8
  | 0, _, _ => ([.waits], none)
  | fuel + 1, backendSeq, stream =>
    match readPacket stream with
    | none => ([.waits], none)
    | some (packet, sequence, stream) =>
      let (bytes, backendSeq) := writeBackendPacket backendSeq packet
      if packet.length = 0 then ([.fromClient packet, .toBackend bytes], some sequence)
      else
        let (later, last) := copyFile fuel backendSeq stream
        (.fromClient packet :: .toBackend bytes :: later, last)

def finish [Driver] (sequence : UInt8) (stream : List UInt8) (moreResults : Bool) : List Traffic :=
  match execBackendResponse stream with
  | .response finalResponse _ =>
    .fromBackend finalResponse :: forwarded sequence finalResponse moreResults
  | .failed => [.waits]
  | .panics => [.panics]

/-- `unread` is what the backend has sent beyond the response. -/
def handleLocalInfile [Driver] (x : Peers) (sequence backendSeq : UInt8)
    (initialResponse unread : List UInt8) (moreResults : Bool) : List Traffic :=
  match forwardBackendResponse sequence initialResponse moreResults with
  | none => [.panics]
  | some (bytes, _) =>
    let stream := x.clientSends bytes
    .toClient bytes ::
      match copyFile stream.length backendSeq stream with
      | (copied, none) => copied
      | (copied, some sequence) =>
        copied ++ finish sequence (unread ++ x.backendSends (toBackend copied)) moreResults

def dialogue [Driver] (path : QueryPath) (sequence : UInt8) (x : Peers) : List Traffic :=
  let stream := x.request.encode
  match readPackets path.reading stream.length 0 true [] stream with
  | .failed => [.waits]
  | .panics => [.panics]
  | .response response unread =>
    .fromBackend response ::
      if firstByte response = some 0xFB then
        handleLocalInfile x sequence x.request.seq response unread path.moreResults
      else forwarded sequence response path.moreResults

def copies : UInt8 → List Frame → List Traffic
  | _, [] => []
  | backendSeq, f :: later =>
    .fromClient f.payload :: .toBackend (Frame.encode ⟨backendSeq + 1, f.payload⟩) ::
      copies (backendSeq + 1) later

/-- The request is relayed, then every packet of the file, and only then is the final answer
read and relayed. -/
def Transferred [Driver] (path : QueryPath) (sequence : UInt8) (x : Peers) : Prop :=
  ∃ request answer, Relayed sequence [x.request.payload] request ∧
    Relayed (lastSeq sequence x.file) x.answer answer ∧
    dialogue path sequence x = .fromBackend x.request.encode :: .toClient request ::
      (copies x.request.seq x.file ++ [.fromBackend (encodeAll x.final), .toClient answer])

variable {x : Peers} {sequence : UInt8}

theorem toBackend_copies (backendSeq : UInt8) (frames : List Frame) :
    toBackend (copies backendSeq frames) = encodeAll (renumbered backendSeq frames) := by
  induction frames generalizing backendSeq with
  | nil => rfl
  | cons f later ih =>
    have next := ih (backendSeq + 1)
    simp only [copies, toBackend, next]
    rfl

theorem copyFile_encodeAll {front : List Frame} {e : Frame} (back : List Frame)
    (fits : ∀ f ∈ front, f.Fits) (filled : ∀ f ∈ front, f.payload ≠ []) (empty : e.payload = [])
    (backendSeq : UInt8) {fuel : Nat} (enough : front.length < fuel) :
    copyFile fuel backendSeq (encodeAll (front ++ e :: back)) =
      (copies backendSeq (front ++ [e]), some e.seq) := by
  induction front generalizing backendSeq fuel with
  | nil =>
    obtain ⟨fuel, rfl⟩ : ∃ k, fuel = k + 1 :=
      ⟨fuel - 1, by simp only [List.length_nil] at enough; omega⟩
    have small : e.Fits := by
      rw [Frame.Fits, empty]
      decide
    have read : readPacket (encodeAll (e :: back)) = some (e.payload, e.seq, encodeAll back) :=
      readBackendPacket_encodeAll small back
    rw [List.nil_append, copyFile, read]
    dsimp only
    rw [if_pos (by rw [empty, List.length_nil])]
    rfl
  | cons f later ih =>
    simp only [List.length_cons] at enough
    obtain ⟨fuel, rfl⟩ : ∃ k, fuel = k + 1 := ⟨fuel - 1, by omega⟩
    have read : readPacket (encodeAll (f :: (later ++ e :: back))) =
        some (f.payload, f.seq, encodeAll (later ++ e :: back)) :=
      readBackendPacket_encodeAll (fits f List.mem_cons_self) _
    have rest := ih (fun g mem => fits g (List.mem_cons_of_mem _ mem))
      (fun g mem => filled g (List.mem_cons_of_mem _ mem)) (backendSeq + 1)
        (Nat.lt_of_succ_lt_succ enough)
    have some : ¬ f.payload.length = 0 := fun none =>
      filled f List.mem_cons_self (List.eq_nil_of_length_eq_zero none)
    rw [List.cons_append, copyFile, read]
    dsimp only
    rw [if_neg some]
    have next : (writeBackendPacket backendSeq f.payload).2 = backendSeq + 1 := rfl
    rw [next, rest]
    rfl

theorem Peers.file_split (x : Peers) :
    ∃ front e back, x.file = front ++ e :: back ∧ e.payload = [] ∧ ∀ f ∈ front, f.payload ≠ [] := by
  obtain ⟨e, mem, empty⟩ := x.carried.exists_empty (by simp)
  have some : (x.file.find? (·.payload.isEmpty)).isSome :=
    List.find?_isSome.mpr ⟨e, mem, by simp [empty]⟩
  obtain ⟨first, found⟩ := Option.isSome_iff_exists.mp some
  obtain ⟨none, front, back, split, before⟩ := List.find?_eq_some_iff_append.mp found
  refine ⟨front, first, back, split, List.isEmpty_iff.mp none, fun f mem empty => ?_⟩
  have filled := before f mem
  rw [empty] at filled
  cases filled

theorem back_nil_iff {front back : List Frame} {e : Frame} (split : x.file = front ++ e :: back)
    (empty : e.payload = []) (filled : ∀ f ∈ front, f.payload ≠ []) :
    back = [] ↔ ∀ p ∈ x.contents, p.length % maxPacket ≠ 0 := by
  have ends := x.carried.dropLast_filled_iff
  rw [List.dropLast_concat] at ends
  rw [← ends, split]
  constructor
  · rintro rfl
    rwa [List.dropLast_concat]
  · intro none
    by_contra more
    refine none e ?_ empty
    rw [List.dropLast_append_of_ne_nil (by simp), List.dropLast_cons_of_ne_nil more]
    simp

theorem request_head (x : Peers) : ∃ name, x.request.payload = 0xFB :: name :=
  List.head?_eq_some_iff.mp x.asks

theorem dialogue_query [Driver] (moreResults : Bool) :
    dialogue (.query moreResults) sequence x = [.waits] := by
  obtain ⟨name, payload⟩ := request_head x
  have goOn : queryReading 0 true x.request.payload = .goOn 0 := by
    rw [payload]
    simp [queryReading]
  have size := length_encode x.request
  obtain ⟨fuel, length⟩ : ∃ k, x.request.encode.length = k + 1 + 1 :=
    ⟨x.request.encode.length - 2, by omega⟩
  have read := readFrame_encode x.fits []
  rw [List.append_nil] at read
  have waits : readPackets queryReading x.request.encode.length 0 true [] x.request.encode =
      .failed := by
    rw [length, readPackets, read]
    dsimp only
    rw [goOn]
    rfl
  rw [dialogue, QueryPath.reading, waits]

theorem request_returned [Driver] (x : Peers) :
    readPackets responseReading x.request.encode.length 0 true [] x.request.encode =
      .response x.request.encode [] := by
  obtain ⟨name, payload⟩ := request_head x
  have done : responseReading 0 true x.request.payload = .done := by
    rw [payload]
    simp [responseReading]
  have all : encodeAll [x.request] = x.request.encode := List.append_nil _
  have consumes : Consumes responseReading 0 true ([x.request].map (·.payload)) := .last done
  have read := readPackets_consumes (by simpa using x.fits) consumes (length_encodeAll _) [] []
  rwa [all, List.append_nil, List.nil_append] at read

theorem request_forwarded [Driver] (x : Peers) (sequence : UInt8) :
    forwardBackendResponse sequence x.request.encode false =
      some (Frame.encode ⟨sequence + 1, x.request.payload⟩, sequence + 1) := by
  have all : encodeAll [x.request] = x.request.encode := List.append_nil _
  have fits : ∀ f ∈ [x.request], f.Fits := by simpa using x.fits
  have sent := forward_plain sequence fits (List.cons_ne_nil _ _)
  rw [all] at sent
  rw [sent]
  simp [renumbered, lastSeq, encodeAll]

theorem clientSends_request (x : Peers) (seq : UInt8) :
    x.clientSends (Frame.encode ⟨seq, x.request.payload⟩) =
      if x.request.payload.length < maxPacket then encodeAll x.file else [] := by
  have size := length_encode ⟨seq, x.request.payload⟩
  obtain ⟨fuel, length⟩ : ∃ k, (Frame.encode ⟨seq, x.request.payload⟩).length = k + 1 :=
    ⟨(Frame.encode ⟨seq, x.request.payload⟩).length - 1, by omega⟩
  have fits : Frame.Fits ⟨seq, x.request.payload⟩ := x.fits
  have read := readFrame_encode fits []
  rw [List.append_nil] at read
  rw [Peers.clientSends, peerReads, length, peerRead, read]
  dsimp only
  split_ifs with short
  · exact if_pos x.asks
  · have none : peerRead fuel [] = none := by cases fuel <;> rfl
    rw [none]
    rfl

theorem finish_relayed_iff [Driver] (x : Peers) (sequence : UInt8) :
    (∃ answer, Relayed sequence x.answer answer ∧ finish sequence (encodeAll x.final) false =
        [.fromBackend (encodeAll x.final), .toClient answer]) ↔
      Consumes responseReading 0 true (x.final.map (·.payload)) := by
  have carries := x.answered
  constructor
  · rintro ⟨answer, -, finished⟩
    cases outcome : execBackendResponse (encodeAll x.final) with
    | failed => simp [finish, outcome] at finished
    | panics => simp [finish, outcome] at finished
    | response read rest =>
      obtain ⟨front, back, split, -, consumes, rfl⟩ :=
        execBackendResponse_returns carries.fits outcome
      rw [finish, outcome] at finished
      have same : encodeAll front = encodeAll x.final :=
        Traffic.fromBackend.inj (List.cons.inj finished).1
      have small : ∀ f ∈ front, f.Fits := fun f mem =>
        carries.fits f (split ▸ List.mem_append_left _ mem)
      rwa [frames_eq_of_encodeAll small carries.fits same] at consumes
  · intro consumes
    obtain ⟨read, filled⟩ := execBackendResponse_consumes carries.fits consumes
    have whole := carries
    rw [← List.append_nil x.final] at whole
    refine ⟨_, (relayed_front_iff sequence whole).mpr rfl, ?_⟩
    rw [finish, read]
    dsimp only
    rw [forwarded, forward_plain sequence carries.fits filled]

theorem copies_append (backendSeq : UInt8) (front back : List Frame) :
    ∃ later, copies backendSeq (front ++ back) = copies backendSeq front ++ copies later back := by
  induction front generalizing backendSeq with
  | nil => exact ⟨backendSeq, rfl⟩
  | cons f rest ih =>
    obtain ⟨later, split⟩ := ih (backendSeq + 1)
    exact ⟨later, by simp only [List.cons_append, copies, split]⟩

theorem dialogue_execute [Driver] (sequence : UInt8) {front back : List Frame} {e : Frame}
    (split : x.file = front ++ e :: back) (empty : e.payload = [])
    (filled : ∀ f ∈ front, f.payload ≠ []) :
    dialogue .execute sequence x = .fromBackend x.request.encode ::
      .toClient (Frame.encode ⟨sequence + 1, x.request.payload⟩) ::
        if x.request.payload.length < maxPacket then
          copies x.request.seq (front ++ [e]) ++ finish e.seq
            (x.backendSends (encodeAll (renumbered x.request.seq (front ++ [e])))) false
        else [.waits] := by
  obtain ⟨name, payload⟩ := request_head x
  have first : firstByte x.request.encode = some 0xFB := by
    simp [firstByte, Frame.encode, header, payload]
  have read :
    readPackets QueryPath.execute.reading x.request.encode.length 0 true [] x.request.encode =
      .response x.request.encode [] := request_returned x
  rw [dialogue, read]
  dsimp only
  rw [if_pos first, handleLocalInfile, QueryPath.moreResults, request_forwarded]
  dsimp only
  rw [clientSends_request]
  split_ifs with short
  · have fits : ∀ f ∈ front, f.Fits := fun f mem =>
      x.carried.fits f (split ▸ List.mem_append_left _ mem)
    have enough : front.length < (encodeAll x.file).length := by
      have count := length_encodeAll x.file
      rw [split] at count ⊢
      simp only [List.length_append, List.length_cons] at count
      omega
    have copied := copyFile_encodeAll back fits filled empty x.request.seq enough
    rw [← split] at copied
    rw [copied]
    dsimp only
    rw [toBackend_copies, List.nil_append]
  · rfl

theorem finish_ne_fromClient [Driver] (sequence : UInt8) (stream packet : List UInt8)
    (later : List Traffic) :
    finish sequence stream false ≠ .fromClient packet :: later := by
  intro same
  rw [finish] at same
  cases outcome : execBackendResponse stream <;> simp [outcome] at same

theorem backendSends_file (x : Peers) (backendSeq : UInt8) :
    x.backendSends (encodeAll (renumbered backendSeq x.file)) = encodeAll x.final := by
  have carries : Carries (renumbered backendSeq x.file) (x.contents ++ [[]]) :=
    carries_renumbered_iff.mpr x.carried
  have empty : [] ∈ x.contents ++ [[]] := by simp
  exact if_pos (hasEmpty_carries carries empty (length_encodeAll _))

theorem execute_transferred_iff [Driver] (sequence : UInt8) (x : Peers) :
    Transferred .execute sequence x ↔ x.request.payload.length < maxPacket ∧
      (∀ p ∈ x.contents, p.length % maxPacket ≠ 0) ∧
      Consumes responseReading 0 true (x.final.map (·.payload)) := by
  obtain ⟨front, e, back, split, empty, filled⟩ := x.file_split
  have ran := dialogue_execute sequence split empty filled
  have finishes := finish_relayed_iff x e.seq
  rw [← back_nil_iff split empty filled, Transferred, ran]
  constructor
  · rintro ⟨request, answer, -, relayed, same⟩
    have rest := (List.cons.inj (List.cons.inj same).2).2
    obtain ⟨later, copied⟩ := copies_append x.request.seq (front ++ [e]) back
    have whole : x.file = (front ++ [e]) ++ back := by simp [split]
    rw [← whole] at copied
    split_ifs at rest with short
    · rw [copied, List.append_assoc, List.append_cancel_left_eq] at rest
      cases back with
      | nil =>
        have last : lastSeq sequence x.file = e.seq := by simp [split, lastSeq]
        rw [List.append_nil] at whole
        rw [← whole, backendSends_file] at rest
        rw [last] at relayed
        exact ⟨short, rfl, finishes.mp ⟨answer, relayed, rest⟩⟩
      | cons f others => exact absurd rest (finish_ne_fromClient _ _ _ _)
    · rw [copied] at rest
      cases front <;> cases rest
  · rintro ⟨short, rfl, consumes⟩
    obtain ⟨answer, relayed, finished⟩ := finishes.mpr consumes
    have last : lastSeq sequence x.file = e.seq := by simp [split, lastSeq]
    have single : ∀ f ∈ [Frame.mk (sequence + 1) x.request.payload], f.Single :=
      List.forall_mem_singleton.mpr short
    have request :
        Relayed sequence [x.request.payload] (Frame.encode ⟨sequence + 1, x.request.payload⟩) :=
      ⟨[⟨sequence + 1, x.request.payload⟩], (List.append_nil _).symm, .of_single single, rfl,
        trivial⟩
    refine ⟨_, answer, request, last ▸ relayed, ?_⟩
    rw [if_pos short, ← split, backendSends_file, finished]

theorem local_infile_iff [Driver] (path : QueryPath) (sequence : UInt8) (x : Peers) :
    Transferred path sequence x ↔ path = .execute ∧ x.request.payload.length < maxPacket ∧
      (∀ p ∈ x.contents, p.length % maxPacket ≠ 0) ∧
      Consumes responseReading 0 true (x.final.map (·.payload)) := by
  cases path with
  | query moreResults =>
    refine iff_of_false ?_ (fun holds => by cases holds.1)
    rintro ⟨request, answer, -, -, same⟩
    rw [dialogue_query] at same
    cases same
  | execute =>
    rw [execute_transferred_iff, and_iff_right rfl]

def oneByte : Peers where
  request := ⟨1, [0xFB, 102]⟩
  fits := by simp [Frame.Fits]
  asks := rfl
  contents := [[97]]
  filled := by simp
  file := [⟨2, [97]⟩, ⟨3, []⟩]
  carried := .of_single (by simp [Frame.Single])
  answer := [[0, 1, 0, 2, 0, 0, 0]]
  final := [⟨4, [0, 1, 0, 2, 0, 0, 0]⟩]
  answered := .of_single (by simp [Frame.Single])

theorem local_infile_query_waits :
    dialogue (.query false) 0 oneByte = [.waits] ∧ ¬ Transferred (.query false) 0 oneByte := by
  have waits : dialogue (.query false) 0 oneByte = [.waits] := by decide
  refine ⟨waits, ?_⟩
  rintro ⟨request, answer, -, -, same⟩
  rw [waits] at same
  cases same

end LocalInfile

end TQDBProxy
