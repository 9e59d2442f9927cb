import SplitHello.Strategy.Plan
import SplitHello.Relay.Socket

/-!
# Writing a hello as several TLS records

`writeFragmented` sends the payload of the first record under fresh record
headers, one record per stretch between two cuts. The abstract side is the list
of records `reframed`; the loop writes exactly their encodings, in whatever
pieces the plan and the socket ask for.
-/

namespace SplitHello

namespace Relay

open ByteString Tls Strategy

/-- A TLS record as it stands on the wire. -/
structure Record where
  contentType : UInt8
  versionMajor : UInt8
  versionMinor : UInt8
  payload : Bytes
  deriving DecidableEq, Repr

def Record.header (r : Record) : Bytes :=
  [r.contentType, r.versionMajor, r.versionMinor] ++ put16 r.payload.length

def Record.encode (r : Record) : Bytes := r.header ++ r.payload

/-- A payload in pieces of at most `chunk` bytes. The fuel is the number of
bytes left. -/
def sendPieces (chunk : ℕ) : ℕ → Bytes → Socket → Bool × Socket
  | 0, _, sock => (true, sock)
  | fuel + 1, data, sock =>
      if data = [] then (true, sock)
      else
        let (ok, sock) := sendAll sock (data.take chunk)
        if ok then sendPieces chunk fuel (data.drop chunk) sock else (false, sock)

/-- One record: its header in one call, its payload whole or in pieces. -/
def sendRecord (writeChunk : ℕ) (r : Record) (sock : Socket) : Bool × Socket :=
  let (ok, sock) := sendAll sock r.header
  if ok then
    if writeChunk = 0 then sendAll sock r.payload
    else sendPieces writeChunk r.payload.length r.payload sock
  else (false, sock)

/-- The record of `buffer` between two payload offsets, under a fresh header. -/
def recordBetween (data : Memory) (start stop : ℕ) : Record :=
  { contentType := data 0
    versionMajor := data 1
    versionMinor := data 2
    payload := slice data (recordHeaderSize + start) (stop - start) }

/-- The boundary loop of `writeFragmented`. -/
def writeLoop (data : Memory) (writeChunk : ℕ) : List ℕ → ℕ → Socket → Bool × Socket
  | [], _, sock => (true, sock)
  | stop :: rest, start, sock =>
      let (ok, sock) := sendRecord writeChunk (recordBetween data start stop) sock
      if ok then writeLoop data writeChunk rest stop sock else (false, sock)

def writeFragmented (clientBuffer : Bytes) (hello : ClientHello) (plan : FragmentPlan)
    (sock : Socket) : Bool × Socket :=
  writeLoop (memory clientBuffer) plan.writeChunk
    (plan.recordSplits ++ [hello.recordPayloadLength]) 0 sock

/-- Sends the first record as the plan says. Without a complete hello there is
nothing to frame and nothing is sent. -/
def writePlan (clientBuffer : Bytes) (hello : ClientHello) (helloComplete : Bool)
    (plan : FragmentPlan) (sock : Socket) : Bool × Socket :=
  if helloComplete && plan.splitsAnything then writeFragmented clientBuffer hello plan sock
  else if helloComplete then sendAll sock (clientBuffer.take hello.recordTotalLength)
  else (true, sock)

/-- The records between consecutive boundaries. -/
def recordsFrom (data : Memory) : ℕ → List ℕ → List Record
  | _, [] => []
  | start, stop :: rest => recordBetween data start stop :: recordsFrom data stop rest

/-- The records a list of cuts makes out of the first record of a buffer. -/
def reframed (data : Memory) (payloadLength : ℕ) (splits : List ℕ) : List Record :=
  recordsFrom data 0 (splits ++ [payloadLength])

/-! The writing side: each loop writes the encoding of what it was given. -/

theorem sendPieces_wrote (chunk fuel : ℕ) (hchunk : 0 < chunk) (data : Bytes)
    (hfuel : data.length ≤ fuel) (sock : Socket) :
    Wrote sock data (sendPieces chunk fuel data sock) := by
  induction fuel generalizing data sock with
  | zero =>
      have hnil : data = [] := List.length_eq_zero_iff.1 (by omega)
      rw [hnil]
      exact Wrote.nothing sock
  | succ fuel ih =>
      rw [sendPieces]
      by_cases hnil : data = []
      · rw [if_pos hnil, hnil]
        exact Wrote.nothing sock
      · rw [if_neg hnil]
        have hlen : (data.drop chunk).length ≤ fuel := by
          have := List.length_pos_iff.2 hnil
          simp
          omega
        have hboth := (sendAll_wrote sock (data.take chunk)).andThen (ih _ hlen _)
        rwa [List.take_append_drop] at hboth

theorem sendRecord_wrote (writeChunk : ℕ) (r : Record) (sock : Socket) :
    Wrote sock r.encode (sendRecord writeChunk r sock) := by
  unfold sendRecord
  refine (sendAll_wrote sock r.header).andThen ?_
  split
  · exact sendAll_wrote _ _
  · exact sendPieces_wrote writeChunk _ (by omega) _ le_rfl _

theorem writeLoop_wrote (data : Memory) (writeChunk : ℕ) (boundaries : List ℕ) (start : ℕ)
    (sock : Socket) :
    Wrote sock ((recordsFrom data start boundaries).flatMap Record.encode)
      (writeLoop data writeChunk boundaries start sock) := by
  induction boundaries generalizing start sock with
  | nil => exact Wrote.nothing sock
  | cons stop rest ih =>
      rw [writeLoop, recordsFrom, List.flatMap_cons]
      exact (sendRecord_wrote writeChunk _ sock).andThen (ih stop _)

theorem writeFragmented_wrote (clientBuffer : Bytes) (hello : ClientHello)
    (plan : FragmentPlan) (sock : Socket) :
    Wrote sock
      ((reframed (memory clientBuffer) hello.recordPayloadLength plan.recordSplits).flatMap
        Record.encode)
      (writeFragmented clientBuffer hello plan sock) :=
  writeLoop_wrote _ _ _ 0 sock

/-! The framing side: what the records are. -/

/-- Boundaries that ascend strictly from `start` up to `n`. -/
structure Boundaries (n start : ℕ) (boundaries : List ℕ) : Prop where
  ascending : (start :: boundaries).Pairwise (· < ·)
  last : boundaries.getLast? = some n

theorem Cuts.boundaries {n : ℕ} {splits : List ℕ} (hcuts : Cuts n splits) (hn : 0 < n) :
    Boundaries n 0 (splits ++ [n]) := by
  refine ⟨?_, by simp⟩
  refine List.pairwise_cons.2 ⟨?_, ?_⟩
  · intro s hs
    rcases List.mem_append.1 hs with hs | hs
    · exact (hcuts.inside s hs).1
    · rw [List.mem_singleton.1 hs]
      exact hn
  · refine List.pairwise_append.2 ⟨hcuts.ascending, List.pairwise_singleton _ _, ?_⟩
    intro s hs t ht
    rw [List.mem_singleton.1 ht]
    exact (hcuts.inside s hs).2

theorem recordsFrom_payload (data : Memory) {n start : ℕ} {boundaries : List ℕ}
    (h : Boundaries n start boundaries) :
    (recordsFrom data start boundaries).flatMap Record.payload =
      slice data (recordHeaderSize + start) (n - start) := by
  induction boundaries generalizing start with
  | nil => cases h.last
  | cons stop rest ih =>
      obtain ⟨hlt, hrest⟩ := List.pairwise_cons.1 h.ascending
      have hstop : start < stop := hlt stop (by simp)
      rw [recordsFrom, List.flatMap_cons]
      cases rest with
      | nil =>
          have hn : stop = n := by simpa using h.last
          subst hn
          simp [recordsFrom, recordBetween]
      | cons next rest =>
          have hnext : Boundaries n stop (next :: rest) := ⟨hrest, by simpa using h.last⟩
          have hle : stop ≤ n := by
            have hmem : n ∈ next :: rest := List.mem_of_getLast? hnext.last
            exact ((List.pairwise_cons.1 hrest).1 n hmem).le
          have hoff : recordHeaderSize + start + (stop - start) = recordHeaderSize + stop := by
            omega
          have hlen : n - start = stop - start + (n - stop) := by omega
          rw [ih hnext, hlen, slice_add, hoff]
          rfl

theorem recordsFrom_lengths (data : Memory) {n start : ℕ} {boundaries : List ℕ}
    (h : Boundaries n start boundaries) :
    ∀ r ∈ recordsFrom data start boundaries,
      (r.contentType = data 0 ∧ r.versionMajor = data 1 ∧ r.versionMinor = data 2) ∧
        1 ≤ r.payload.length ∧ r.payload.length ≤ n := by
  induction boundaries generalizing start with
  | nil => cases h.last
  | cons stop rest ih =>
      obtain ⟨hlt, hrest⟩ := List.pairwise_cons.1 h.ascending
      have hstop : start < stop := hlt stop (by simp)
      have hmem : n ∈ stop :: rest := List.mem_of_getLast? h.last
      have hle : stop ≤ n := by
        rcases List.mem_cons.1 hmem with hn | hn
        · exact hn.ge
        · exact ((List.pairwise_cons.1 hrest).1 n hn).le
      intro r hr
      rcases List.mem_cons.1 hr with rfl | hr
      · refine ⟨⟨rfl, rfl, rfl⟩, ?_⟩
        simp only [recordBetween, length_slice]
        omega
      · cases rest with
        | nil => cases hr
        | cons next rest => exact ih ⟨hrest, by simpa using h.last⟩ r hr

/-- A record's length field announces its own payload. -/
theorem Record.lengthField {r : Record} (h : r.payload.length < 65536) (rest : Bytes) :
    be16 (memory (r.encode ++ rest)) 3 = r.payload.length := by
  simp [be16, memory, Record.encode, Record.header, put16]
  omega

/-- Re-framing keeps the ClientHello: on a socket whose sends succeed, whatever
the write chunk, what goes out is a sequence of TLS records of the original
content type and version, each announcing its own payload of between one byte
and the record limit, and their payloads put together are the payload of the
original record. A plan without cuts is the case of one record. -/
theorem writeFragmented_reframes (clientBuffer : Bytes) (hello : ClientHello)
    (profile : Profile) (baseDelayMs writeChunk : ℕ) (plan : FragmentPlan) (sock : Socket)
    (hparse : parseClientHello (memory clientBuffer) clientBuffer.length = (.ok, hello))
    (hplan : buildPlan profile hello baseDelayMs = some plan) (hsock : sock.Willing) :
    ∃ (records : List Record) (sock' : Socket),
      writeFragmented clientBuffer hello { plan with writeChunk } sock = (true, sock') ∧
      sock'.sent = sock.sent ++ records.flatMap Record.encode ∧
      (∀ r ∈ records,
        (some r.contentType = clientBuffer[0]? ∧ some r.versionMajor = clientBuffer[1]? ∧
          some r.versionMinor = clientBuffer[2]?) ∧
        be16 (memory r.encode) 3 = r.payload.length ∧
        1 ≤ r.payload.length ∧ r.payload.length ≤ maxRecordPayload) ∧
      records.flatMap Record.payload =
        (clientBuffer.drop recordHeaderSize).take hello.recordPayloadLength := by
  have hrecord := parseClientHello_ok hparse
  have hpos : 0 < hello.recordPayloadLength := by
    have := hrecord.payload_ge
    omega
  have hbounds := Cuts.boundaries (buildPlan_cuts hplan) hpos
  have hinside := hrecord.inside
  rw [hrecord.total] at hinside
  have hhead : ∀ i < recordHeaderSize, clientBuffer[i]? = some (memory clientBuffer i) := by
    intro i hi
    have : i < clientBuffer.length := by omega
    simp [memory, this]
  have hwrote := writeFragmented_wrote clientBuffer hello { plan with writeChunk } sock
  obtain ⟨hok, -⟩ := hwrote.willing hsock
  refine ⟨reframed (memory clientBuffer) hello.recordPayloadLength plan.recordSplits,
    (writeFragmented clientBuffer hello { plan with writeChunk } sock).2, ?_, hwrote.all hok, ?_,
    ?_⟩
  · rw [← hok]
  · intro r hr
    obtain ⟨⟨htype, hmajor, hminor⟩, hlo, hhi⟩ := recordsFrom_lengths _ hbounds r hr
    have hmax := hrecord.payload_le
    refine ⟨?_, ?_, hlo, hhi.trans hmax⟩
    · rw [hhead 0 (by decide), hhead 1 (by decide), hhead 2 (by decide), htype, hmajor, hminor]
      exact ⟨rfl, rfl, rfl⟩
    · have hfield := Record.lengthField (r := r) (by simp only [maxRecordPayload] at hmax; omega) []
      rwa [List.append_nil] at hfield
  · rw [reframed, recordsFrom_payload _ hbounds, Nat.add_zero, Nat.sub_zero]
    exact slice_memory clientBuffer recordHeaderSize _ hinside

theorem writeFragmented_reframes_sample :
    ∃ (records : List Record) (sock' : Socket),
      writeFragmented sampleBuffer sampleHello
        { recordSplits := [1, 56, 58], writeChunk := 4, delayMs := 20 }
        { sends := [.accepted 3, .wouldBlock] } = (true, sock') ∧
      sock'.sent = [] ++ records.flatMap Record.encode ∧
      (∀ r ∈ records,
        (some r.contentType = sampleBuffer[0]? ∧ some r.versionMajor = sampleBuffer[1]? ∧
          some r.versionMinor = sampleBuffer[2]?) ∧
        be16 (memory r.encode) 3 = r.payload.length ∧
        1 ≤ r.payload.length ∧ r.payload.length ≤ maxRecordPayload) ∧
      records.flatMap Record.payload =
        (sampleBuffer.drop recordHeaderSize).take sampleHello.recordPayloadLength :=
  writeFragmented_reframes sampleBuffer sampleHello .sniMulti 20 4
    { recordSplits := [1, 56, 58], delayMs := 20 } { sends := [.accepted 3, .wouldBlock] }
    parseClientHello_sampleBuffer (by decide) (by simp [Socket.Willing, SendResult.Willing])

end Relay

end SplitHello
