import TQDBProxy.ClientResponses
import TQDBProxy.MariaDBReplies
import TQDBProxy.PostgresReady

/-! What the four caching paths make of a result that fails. The MariaDB proxy sees an error
as a packet of the response, the PostgreSQL proxy as an error of the query or of the
iteration over its rows. -/

namespace TQDBProxy.CachedResults

open MySqlWire TQDBProxy.Parser
open MariaDB
  (execBackendQuery execBackendResponse queryReading responseReading readPackets Reading Reads
    Consumes
  firstByte)

/-! ### MariaDB -/

/-- The frames of a response, of which the first `delivered` bytes arrive before the
connection is lost. -/
structure BackendAnswer (format : RowFormat) where
  packets : List (List UInt8)
  response : Response format packets
  frames : List Frame
  carried : Carries frames packets
  delivered : Nat

namespace BackendAnswer

variable {format : RowFormat}

def stream (b : BackendAnswer format) : List UInt8 := (encodeAll b.frames).take b.delivered

def Whole (b : BackendAnswer format) : Prop := (encodeAll b.frames).length ≤ b.delivered

def Fails (b : BackendAnswer format) : Prop := ∃ p ∈ b.packets, IsErr p

def FailsAtOnce (b : BackendAnswer format) : Prop := ∃ p later, b.packets = p :: later ∧ IsErr p

def Complete (b : BackendAnswer format) (response : List UInt8) : Prop :=
  response = encodeAll b.frames ∧ ¬ b.Fails

/-- The reader returns after some of the frames, all of which have arrived. -/
structure Returns (b : BackendAnswer format) (reading : Nat → Bool → List UInt8 → Reading)
    (front : List Frame) : Prop where
  initial : ∃ back, b.frames = front ++ back
  arrived : (encodeAll front).length ≤ b.delivered
  consumed : Consumes reading 0 true (front.map (·.payload))

/-- If the reader returns, then after a whole response without an error. -/
def ReadsWell (b : BackendAnswer format) (reading : Nat → Bool → List UInt8 → Reading) : Prop :=
  ∀ front, b.Returns reading front → front = b.frames ∧ ¬ b.Fails

end BackendAnswer

/-- The response that is cached, and the one that is sent to the client. -/
structure Fetched where
  stored : Option (List UInt8)
  sent : Option (List UInt8)
  deriving DecidableEq

/-- What becomes of a response that was read. A request for a file is never cached; all else
is `counted` first, on which the proxy may panic. -/
def fetched (counted : Bool) (stores : List UInt8 → Bool) : MariaDB.Outcome → Fetched
  | .response response _ =>
    if firstByte response = some 0xFB then ⟨none, some response⟩
    else if counted then ⟨if stores response then some response else none, some response⟩
    else ⟨none, none⟩
  | .failed | .panics => ⟨none, none⟩

def kept (parsed : ParsedQuery) : Bool := parsed.isCacheable && 0 < ttlDuration parsed.ttl

/-- `handleSingleQuery` from the execution on. -/
def fetchText [MariaDB.Driver] (parsed : ParsedQuery) (stream : List UInt8) : Fetched :=
  fetched parsed.labelled (fun _ => kept parsed) (execBackendQuery stream)

/-- `handleExecute` from the execution on, which is not counted under the label. -/
def fetchPrepared [MariaDB.Driver] (parsed : ParsedQuery) (stream : List UInt8) : Fetched :=
  fetched true (fun response => kept parsed && firstByte response != some 0xFF)
    (execBackendResponse stream)

def Successful (format : RowFormat) (bytes : List UInt8) : Prop :=
  ∃ frames packets, Carries frames packets ∧ bytes = encodeAll frames ∧ Response format packets ∧
    ∀ p ∈ packets, ¬ IsErr p

/-- Nothing but the complete successful response is cached, or sent as one. -/
structure BackendAnswer.Honest {format : RowFormat} (b : BackendAnswer format) (f : Fetched) :
    Prop where
  stored : ∀ response, f.stored = some response → b.Complete response
  sent : ∀ response, f.sent = some response → Successful format response → b.Complete response

section Reading

variable {format : RowFormat} {b : BackendAnswer format}
  {reading : Nat → Bool → List UInt8 → Reading}
  {counted : Bool} {stores : List UInt8 → Bool} {front : List Frame} {response : List UInt8}

theorem stream_split {back : List Frame} (split : b.frames = front ++ back)
    (arrived : (encodeAll front).length ≤ b.delivered) :
      ∃ rest, b.stream = encodeAll front ++ rest := by
  refine ⟨(encodeAll back).take (b.delivered - (encodeAll front).length), ?_⟩
  rw [BackendAnswer.stream, split, encodeAll_append, List.take_append,
    List.take_of_length_le arrived]

theorem response_iff :
    (∃ rest, readPackets reading b.stream.length 0 true [] b.stream = .response response rest) ↔
      ∃ front, b.Returns reading front ∧ response = encodeAll front := by
  constructor
  · rintro ⟨rest, returned⟩
    obtain ⟨front, back, split, arrived, consumed, rfl⟩ :=
      MariaDB.readPackets_returns b.carried.fits returned
    exact ⟨front, ⟨⟨back, split⟩, arrived, consumed⟩, rfl⟩
  · rintro ⟨front, ⟨⟨back, split⟩, arrived, consumed⟩, rfl⟩
    obtain ⟨rest, stream⟩ := stream_split split arrived
    have fits : ∀ f ∈ front, f.Fits := fun f mem =>
      b.carried.fits f (split ▸ List.mem_append_left back mem)
    have enough : front.length ≤ b.stream.length := by
      have := length_encodeAll front
      rw [stream, List.length_append]
      omega
    refine ⟨rest, ?_⟩
    rw [stream] at enough ⊢
    exact MariaDB.readPackets_consumes fits consumed enough [] rest

theorem firstByte_encodeAll {frames : List Frame} {b : UInt8} {tail : List UInt8}
    {later : List (List UInt8)} (head : frames.map (·.payload) = (b :: tail) :: later) :
    MariaDB.firstByte (encodeAll frames) = some b := by
  cases frames with
  | nil => cases head
  | cons f rest =>
    obtain ⟨payload, -⟩ := List.cons.inj head
    simp [MariaDB.firstByte, encodeAll, Frame.encode, header, payload]

theorem BackendAnswer.Returns.firstByte (returns : b.Returns reading front) :
    ∃ c, firstByte (encodeAll front) = some c ∧ c ≠ 251 ∧ (c = 255 ↔ b.FailsAtOnce) := by
  obtain ⟨c, tail, later, packets, notFile, -⟩ := MariaDB.response_head b.response
  obtain ⟨f, others, rest, frames, payload⟩ := (packets ▸ b.carried).head
  refine ⟨c, ?_, notFile, ?_⟩
  · obtain ⟨back, split⟩ := returns.initial
    cases front with
    | nil => cases returns.consumed
    | cons g front =>
      rw [frames, List.cons_append] at split
      obtain ⟨rfl, -⟩ := List.cons.inj split
      have head : (f :: front).map (·.payload) = (c :: rest) :: front.map (·.payload) := by
        rw [List.map_cons, payload]
      exact firstByte_encodeAll head
  · constructor
    · rintro rfl
      exact ⟨_, _, packets, rfl⟩
    · rintro ⟨p, after, same, err⟩
      rw [packets] at same
      obtain ⟨rfl, -⟩ := List.cons.inj same
      simpa [IsErr] using err

theorem fetched_stored_iff :
    (fetched counted stores (readPackets reading b.stream.length 0 true [] b.stream)).stored =
        some response ↔
      ∃ front, b.Returns reading front ∧ (counted = true ∧ stores response = true) ∧
        response = encodeAll front := by
  constructor
  · intro stored
    unfold fetched at stored
    split at stored
    · rename_i read rest returned
      split_ifs at stored with file counts chosen
      cases stored
      obtain ⟨front, returns, rfl⟩ := response_iff.mp ⟨rest, returned⟩
      exact ⟨front, returns, ⟨counts, chosen⟩, rfl⟩
    all_goals cases stored
  · rintro ⟨front, returns, ⟨counts, chosen⟩, rfl⟩
    obtain ⟨rest, returned⟩ := response_iff.mpr ⟨front, returns, rfl⟩
    obtain ⟨c, first, notFile, -⟩ := returns.firstByte
    rw [returned]
    simp [fetched, first, notFile, counts, chosen]

theorem fetched_sent
    (sent : (fetched counted stores (readPackets reading b.stream.length 0 true [] b.stream)).sent =
      some response) :
    ∃ front, b.Returns reading front ∧ response = encodeAll front := by
  unfold fetched at sent
  split at sent
  · rename_i read rest returned
    have same : read = response := by
      split_ifs at sent <;> exact Option.some.inj sent
    subst same
    exact response_iff.mp ⟨rest, returned⟩
  all_goals cases sent

theorem response_ends {packets more : List (List UInt8)} (response : Response format packets)
    (longer : Response format (packets ++ more)) : more = [] := by
  have consumed : Consumes responseReading 0 true packets :=
    (MariaDB.reads_response format).consumes response
  exact consumed.ends ((MariaDB.reads_response format).consumes longer)

theorem encodeAll_eq_nil {frames : List Frame} (empty : encodeAll frames = []) : frames = [] := by
  have size := length_encodeAll frames
  rw [empty] at size
  exact List.eq_nil_of_length_eq_zero (Nat.le_zero.mp size)

theorem complete_of_successful (returns : b.Returns reading front)
    (successful : Successful format (encodeAll front)) : b.Complete (encodeAll front) := by
  obtain ⟨frames, packets, carried, same, response, fine⟩ := successful
  obtain ⟨back, split⟩ := returns.initial
  have bytes : encodeAll frames ++ encodeAll back = encodeAll b.frames := by
    rw [← same, split, encodeAll_append]
  obtain ⟨others, frames', -⟩ := frames_of_encodeAll carried.fits b.carried.fits bytes
  obtain ⟨later, packets', rest⟩ := carried.append (frames' ▸ b.carried)
  obtain rfl := response_ends response (packets' ▸ b.response)
  cases rest
  rw [List.append_nil] at frames' packets'
  refine ⟨by rw [same, frames'], ?_⟩
  rintro ⟨p, mem, err⟩
  exact fine p (packets' ▸ mem) err

theorem honest_iff :
    b.Honest (fetched counted stores (readPackets reading b.stream.length 0 true [] b.stream)) ↔
      ∀ front, b.Returns reading front → counted = true ∧ stores (encodeAll front) = true →
        front = b.frames ∧ ¬ b.Fails := by
  constructor
  · intro honest front returns chosen
    obtain ⟨same, fine⟩ := honest.stored _ (fetched_stored_iff.mpr ⟨front, returns, chosen, rfl⟩)
    obtain ⟨back, split⟩ := returns.initial
    rw [split, encodeAll_append, List.self_eq_append_right] at same
    rw [split, encodeAll_eq_nil same, List.append_nil]
    exact ⟨rfl, fine⟩
  · intro whole
    constructor
    · intro response stored
      obtain ⟨front, returns, chosen, rfl⟩ := fetched_stored_iff.mp stored
      obtain ⟨rfl, fine⟩ := whole front returns chosen
      exact ⟨rfl, fine⟩
    · intro response sent successful
      obtain ⟨front, returns, rfl⟩ := fetched_sent sent
      exact complete_of_successful returns successful

theorem readsWell_iff (reads : Reads format reading) (single : ∀ f ∈ b.frames, f.Single) :
    b.ReadsWell reading ↔ ¬ (b.Whole ∧ b.Fails) := by
  have consumed : Consumes reading 0 true (b.frames.map (·.payload)) :=
    b.carried.payloads single ▸ reads.consumes b.response
  constructor
  · rintro well ⟨whole, fails⟩
    exact (well b.frames ⟨⟨[], by simp⟩, whole, consumed⟩).2 fails
  · intro sound front returns
    obtain ⟨back, split⟩ := returns.initial
    rw [split, List.map_append] at consumed
    obtain rfl : back = [] := by simpa using returns.consumed.ends consumed
    rw [List.append_nil] at split
    have whole : b.Whole := by
      rw [BackendAnswer.Whole, split]
      exact returns.arrived
    exact ⟨split.symm, fun fails => sound ⟨whole, fails⟩⟩

end Reading

theorem fetchText_honest_iff [MariaDB.Driver] (parsed : ParsedQuery) (b : BackendAnswer .text) :
    b.Honest (fetchText parsed b.stream) ↔
      (parsed.labelled = true → kept parsed = true → b.ReadsWell queryReading) := by
  unfold fetchText execBackendQuery
  rw [honest_iff]
  exact ⟨fun whole labelled chosen front returns => whole front returns ⟨labelled, chosen⟩,
    fun well front returns chosen => well chosen.1 chosen.2 front returns⟩

theorem fetchPrepared_honest_iff [MariaDB.Driver] (parsed : ParsedQuery)
    (b : BackendAnswer .binary) :
    b.Honest (fetchPrepared parsed b.stream) ↔
      (kept parsed = true → ¬ b.FailsAtOnce → b.ReadsWell responseReading) := by
  have chosen_iff : ∀ front, b.Returns responseReading front →
      ((kept parsed && firstByte (encodeAll front) != some 0xFF) = true ↔
        kept parsed = true ∧ ¬ b.FailsAtOnce) := by
    intro front returns
    obtain ⟨c, first, -, atOnce⟩ := returns.firstByte
    rw [first, ← atOnce]
    simp
  unfold fetchPrepared execBackendResponse
  rw [honest_iff]
  constructor
  · intro whole chosen later front returns
    exact whole front returns ⟨rfl, (chosen_iff front returns).mpr ⟨chosen, later⟩⟩
  · intro well front returns chosen
    obtain ⟨chosen, later⟩ := (chosen_iff front returns).mp chosen.2
    exact well chosen later front returns

/-! The session logs an entry exactly for a response that is stored. -/

section Session

variable {cfg : ProxyConfig} {w : MariaDB.World} {parsed : ParsedQuery} {s t u : MariaDB.Session}
  {stream rest response : List UInt8}

end Session

/-! ### PostgreSQL -/

def dataRows (replies : List Postgres.Reply) : List (List (Option GoString)) :=
  replies.filterMap fun
    | .dataRow fields => some (fields.map (·.value))
    | _ => none

/-- The replies have all rows of a query that has succeeded and has no other result. -/
structure CompleteRows (a : Postgres.Answer) (replies : List Postgres.Reply) : Prop where
  executed : a.world.failure = none
  finished : a.rows.failure = none
  only : a.rows.further = false
  rows : dataRows replies = a.rows.rows

structure Succeeds (replies : List Postgres.Reply) : Prop where
  completed : ∃ tag, .commandComplete tag ∈ replies
  fine : ∀ e, .errorResponse e ∉ replies

structure HonestRows (a : Postgres.Answer) (o : Postgres.Outcome) : Prop where
  stored : o.stores ≠ none → CompleteRows a o.replies
  sent : Succeeds o.replies → CompleteRows a o.replies

/-- A query that has begun to return rows fails, has another result, or has rows without
a column. -/
def Broken (a : Postgres.Answer) : Prop :=
  a.world.failure = none ∧
    (a.rows.failure ≠ none ∨ a.rows.further = true ∨ (a.rows.columns = [] ∧ a.rows.rows ≠ []))

section Rows

variable {a : Postgres.Answer} {o : Postgres.Outcome} {last : List Postgres.Reply}

theorem dataRows_rowReplies (done : String) (r : Postgres.Rows) (ready : last ⊆ [.readyForQuery]) :
    dataRows (Postgres.rowReplies done r ++ last) = if r.columns = [] then [] else r.rows := by
  have none_last : dataRows last = [] := by
    refine List.filterMap_eq_nil_iff.mpr fun reply mem => ?_
    rw [List.mem_singleton.mp (ready mem)]
  rw [dataRows] at none_last
  unfold Postgres.rowReplies dataRows
  split
  · simp [none_last]
  · simp [none_last, List.filterMap_map, Function.comp_def]

theorem succeeds_rowReplies (done : String) (r : Postgres.Rows) (ready : last ⊆ [.readyForQuery]) :
    Succeeds (Postgres.rowReplies done r ++ last) := by
  constructor
  · unfold Postgres.rowReplies
    split
    · exact ⟨lit done, by simp⟩
    · exact ⟨lit "SELECT " ++ Strconv.itoa r.rows.length, by simp⟩
  · intro e mem
    rcases List.mem_append.mp mem with replied | ended
    · unfold Postgres.rowReplies at replied
      split at replied
      · simp at replied
      · simp at replied
    · simpa using ready ended

/-- Both paths answer an error of the query with an error and cache nothing, and send all
else as the rows that were returned. -/
theorem honestRows_iff (done : String)
    (refused : ∀ e, a.world.failure = some e → o.stores = none ∧ .errorResponse e ∈ o.replies)
    (ready : last ⊆ [.readyForQuery])
    (answered : a.world.failure = none → o.replies = Postgres.rowReplies done a.rows ++ last) :
    HonestRows a o ↔ ¬ Broken a := by
  cases failure : a.world.failure with
  | some e =>
    obtain ⟨nothing, told⟩ := refused e failure
    have honest : HonestRows a o :=
      ⟨fun stored => absurd nothing stored, fun succeeds => absurd told (succeeds.fine e)⟩
    simp [honest, Broken, failure]
  | none =>
    have replies := answered failure
    have rows := dataRows_rowReplies done a.rows ready
    rw [← replies] at rows
    constructor
    · rintro honest ⟨-, broken⟩
      have complete := honest.sent (replies ▸ succeeds_rowReplies done a.rows ready)
      rcases broken with failed | further | ⟨bare, some⟩
      · exact failed complete.finished
      · simp [complete.only] at further
      · rw [complete.rows, if_pos bare] at rows
        exact some rows
    · intro sound
      have complete : CompleteRows a o.replies := by
        refine ⟨failure, ?_, ?_, ?_⟩
        · by_contra failed
          exact sound ⟨failure, .inl failed⟩
        · by_contra further
          exact sound ⟨failure, .inr (.inl (by simpa using further))⟩
        · rw [rows]
          split
          · rename_i bare
            by_contra lost
            exact sound ⟨failure, .inr (.inr ⟨bare, fun empty => lost empty.symm⟩)⟩
          · rfl
      exact ⟨fun _ => complete, fun _ => complete⟩

/-- An answer that is an error, or none at all after a panic. -/
theorem honestRows_failed (nothing : o.stores = none)
    (told : ∀ tag, .commandComplete tag ∉ o.replies) : HonestRows a o where
  stored := fun stored => absurd nothing stored
  sent := by
    rintro ⟨⟨tag, completed⟩, -⟩
    exact absurd completed (told tag)

end Rows

variable {parsed : ParsedQuery} {a : Postgres.Answer} {store : Postgres.Store}
  {s : Postgres.Session}

theorem honestRows_crash : HonestRows a .crash :=
  honestRows_failed rfl (by simp [Postgres.Outcome.crash])

theorem textOutcome_honest_iff (unserved : Postgres.serveCached a.world parsed s = none)
    (direct : Postgres.batched parsed s = false) :
    HonestRows a (Postgres.textOutcome a store parsed s) ↔
      (parsed.labelled = true → ¬ Broken a) := by
  cases labelled : parsed.labelled with
  | true =>
    simp only [forall_const]
    refine honestRows_iff "OK" ?_ (List.Subset.refl _) ?_
    · intro e failure
      simp [Postgres.textOutcome, labelled, unserved, direct, failure]
    · intro failure
      simp [Postgres.textOutcome, Postgres.counting, labelled, unserved, direct, failure]
  | false =>
    refine iff_of_true ?_ (by simp)
    unfold Postgres.textOutcome Postgres.counting
    simp only [labelled, unserved, direct, Option.isSome_none, Bool.false_eq_true, if_false]
    split
    · exact honestRows_crash
    · cases a.world.failure with
      | some e => exact honestRows_failed rfl (by simp)
      | none => exact honestRows_crash

theorem portalOutcome_honest_iff {params : List (Option GoString)}
    (unserved : Postgres.servePrepared a.world (Postgres.executeKey s.database parsed params)
      s = none)
    (direct : Postgres.batched parsed s = false) :
    HonestRows a (Postgres.portalOutcome a store parsed params s) ↔
      (parsed.labelled = true → ¬ Broken a) := by
  cases labelled : parsed.labelled with
  | true =>
    simp only [forall_const]
    refine honestRows_iff "INSERT 0 1" ?_ (List.nil_subset _) ?_
    · intro e failure
      simp [Postgres.portalOutcome, labelled, unserved, direct, failure]
    · intro failure
      simp [Postgres.portalOutcome, Postgres.counting, labelled, unserved, direct, failure]
  | false =>
    refine iff_of_true ?_ (by simp)
    unfold Postgres.portalOutcome Postgres.counting
    simp only [labelled, unserved, direct, Option.isSome_none, Bool.false_eq_true, if_false]
    split
    · exact honestRows_crash
    · cases a.world.failure with
      | some e => exact honestRows_failed rfl (by simp)
      | none => exact honestRows_crash

/-! ### The four paths -/

/-- A statement that is executed on one of the paths, with all that the backend does. -/
inductive Fetch where
  | text (parsed : ParsedQuery) (answer : BackendAnswer .text)
  | prepared (parsed : ParsedQuery) (answer : BackendAnswer .binary)
  | simple (parsed : ParsedQuery) (answer : Postgres.Answer) (store : Postgres.Store)
      (s : Postgres.Session)
      (unserved : Postgres.serveCached answer.world parsed s = none)
        (direct : Postgres.batched parsed s = false)
  | extended (parsed : ParsedQuery) (params : List (Option GoString)) (answer : Postgres.Answer)
      (store : Postgres.Store) (s : Postgres.Session)
      (unserved : Postgres.servePrepared answer.world (Postgres.executeKey s.database parsed params)
        s = none)
      (direct : Postgres.batched parsed s = false)

def Fetch.Honest [MariaDB.Driver] : Fetch → Prop
  | .text parsed b => b.Honest (fetchText parsed b.stream)
  | .prepared parsed b => b.Honest (fetchPrepared parsed b.stream)
  | .simple parsed a store s _ _ => HonestRows a (Postgres.textOutcome a store parsed s)
  | .extended parsed params a store s _ _ =>
    HonestRows a (Postgres.portalOutcome a store parsed params s)

/-- A response that is to be cached is read whole and has no error, unless a prepared
statement is answered with nothing else; and rows are all returned. On a label that is refused
the proxy panics before it caches or sends anything. -/
def Fetch.Sound [MariaDB.Driver] : Fetch → Prop
  | .text parsed b => parsed.labelled = true → kept parsed = true → b.ReadsWell queryReading
  | .prepared parsed b => kept parsed = true → ¬ b.FailsAtOnce → b.ReadsWell responseReading
  | .simple parsed a _ _ _ _ => parsed.labelled = true → ¬ Broken a
  | .extended parsed _ a _ _ _ _ => parsed.labelled = true → ¬ Broken a

theorem complete_results_cached_iff [MariaDB.Driver] (f : Fetch) : f.Honest ↔ f.Sound := by
  cases f with
  | text parsed b => exact fetchText_honest_iff parsed b
  | prepared parsed b => exact fetchPrepared_honest_iff parsed b
  | simple parsed a store s unserved direct => exact textOutcome_honest_iff unserved direct
  | extended parsed params a store s unserved direct =>
    exact portalOutcome_honest_iff unserved direct

def selects : ParsedQuery := parse (lit "/* ttl:60 */ SELECT a FROM t")

def selectsBound : ParsedQuery := parse (lit "/* ttl:60 */ SELECT a FROM t WHERE a = $1")

def rowThen (format : RowFormat) (last : List UInt8) (ends : IsEof false last ∨ IsErr last)
    (short : last.length < 16777215) : BackendAnswer format where
  packets := [[1], [3, 100, 101, 102, 0], [254, 0, 0, 2, 0], [0], last]
  response := by
    have set : IsResultSet format [1] [[3, 100, 101, 102, 0]] [254, 0, 0, 2, 0] [[0]] := by
      refine ⟨⟨rfl, by decide⟩, by simp [IsColumnDefinition], ⟨false, 0, 0, 2, 0, rfl, rfl⟩, ?_⟩
      cases format <;> simp [IsRow, textRow, lenencString, lenenc]
    exact .resultSet set ends
  frames := [⟨1, [1]⟩, ⟨2, [3, 100, 101, 102, 0]⟩, ⟨3, [254, 0, 0, 2, 0]⟩, ⟨4, [0]⟩, ⟨5, last⟩]
  carried := .of_single (by simpa [Frame.Single] using short)
  delivered := 100

def selected (format : RowFormat) : BackendAnswer format :=
  rowThen format [254, 0, 0, 2, 0] (.inl ⟨0, 0, 2, 0, rfl, rfl⟩) (by decide)

def interrupted (format : RowFormat) : BackendAnswer format :=
  rowThen format [255, 37, 5] (.inr rfl) (by decide)

def refused : BackendAnswer .text where
  packets := [[255, 40, 4]]
  response := .err rfl
  frames := [⟨1, [255, 40, 4]⟩]
  carried := .of_single (by simp [Frame.Single])
  delivered := 7

def rowUntil (failure : Option GoString) : Postgres.Answer where
  rows := { Postgres.oneRow.rows with failure }

def simply (failure : Option GoString) : Fetch :=
  .simple selects (rowUntil failure) (fun _ => none) Postgres.client rfl rfl

def bound (failure : Option GoString) : Fetch :=
  .extended selectsBound [some (lit "5")] (rowUntil failure) (fun _ => none) Postgres.client rfl rfl

/-- A row that is returned whole is cached on all paths. -/
theorem complete_results_cached_row :
    (Fetch.text selects (selected .text)).Honest ∧
    (Fetch.prepared selects (selected .binary)).Honest ∧
      (simply none).Honest ∧ (bound none).Honest ∧
      (fetchText selects (selected .text).stream).stored =
        some (encodeAll (selected .text).frames) ∧
      (fetchPrepared selects (selected .binary).stream).stored =
        some (encodeAll (selected .binary).frames) := by
  have fine : ∀ format, ¬ (selected format).Fails := by
    intro format
    simp [selected, rowThen, BackendAnswer.Fails, IsErr]
  have single : ∀ format, ∀ f ∈ (selected format).frames, f.Single := by
    intro format
    simp [selected, rowThen, Frame.Single]
  have whole : ∀ failure, failure = none → ¬ Broken (rowUntil failure) := by
    rintro _ rfl
    simp [Broken, rowUntil, Postgres.oneRow]
  refine ⟨?_, ?_, ?_, ?_, by decide +kernel, by decide +kernel⟩
  · refine (complete_results_cached_iff _).mpr fun _ _ => ?_
    exact (readsWell_iff MariaDB.reads_query (single .text)).mpr fun both => fine .text both.2
  · refine (complete_results_cached_iff _).mpr fun _ _ => ?_
    exact (readsWell_iff (MariaDB.reads_response .binary) (single .binary)).mpr fun both =>
      fine .binary both.2
  · exact (complete_results_cached_iff _).mpr fun _ => whole none rfl
  · exact (complete_results_cached_iff _).mpr fun _ => whole none rfl

/-- An error alone and an error after a row are cached, and rows that end in an error are
cached and sent as complete. -/
theorem failures_cached :
    (fetchText selects refused.stream).stored = some [3, 0, 0, 1, 255, 40, 4] ∧
      ¬ (Fetch.text selects refused).Honest ∧ ¬ (Fetch.text selects (interrupted .text)).Honest ∧
      ¬ (Fetch.prepared selects (interrupted .binary)).Honest ∧
      ¬ (simply (some (lit "canceled"))).Honest ∧ ¬ (bound (some (lit "canceled"))).Honest := by
  have fails : ∀ format, (interrupted format).Fails := by
    intro format
    exact ⟨[255, 37, 5], by simp [interrupted, rowThen], rfl⟩
  refine ⟨by decide +kernel, ?_, ?_, ?_, ?_, ?_⟩
  · intro honest
    have stored : (fetchText selects refused.stream).stored = some (encodeAll refused.frames) := by
      decide +kernel
    exact (honest.stored _ stored).2 ⟨[255, 40, 4], List.mem_singleton_self _, rfl⟩
  · intro honest
    have stored : (fetchText selects (interrupted .text).stream).stored =
        some (encodeAll (interrupted .text).frames) := by decide +kernel
    exact (honest.stored _ stored).2 (fails .text)
  · intro honest
    have stored : (fetchPrepared selects (interrupted .binary).stream).stored =
        some (encodeAll (interrupted .binary).frames) := by decide +kernel
    exact (honest.stored _ stored).2 (fails .binary)
  · intro honest
    have stored : (Postgres.textOutcome (rowUntil (some (lit "canceled"))) (fun _ => none) selects
        Postgres.client).stores ≠ none := by decide +kernel
    cases (honest.stored stored).finished
  · intro honest
    have stored :
      (Postgres.portalOutcome (rowUntil (some (lit "canceled"))) (fun _ => none) selectsBound
        [some (lit "5")] Postgres.client).stores ≠ none := by decide +kernel
    cases (honest.stored stored).finished

end TQDBProxy.CachedResults
