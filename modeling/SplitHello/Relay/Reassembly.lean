import SplitHello.Relay.Connection
import SplitHello.Tls.Streaming

/-!
# Reassembling the hello

`collectClientHello` parses what it has after every read. Because a verdict is final
and comes with the last byte it needs, the pieces the stream arrives in make no
difference to what the loop ends with.
-/

namespace SplitHello

namespace Relay

open ByteString Tls Strategy

/-- The reads bring pieces of the stream, and a verdict comes with the last of them,
before any timeout, end of stream or stop. -/
structure Settles (client : Endpoint) (rounds : ℕ) (stream : Bytes) (pieces : List Bytes) :
    Prop where
  arrive : pieces.map RecvResult.data <+: client.recvs
  nonempty : ∀ piece ∈ pieces, piece ≠ []
  rounds : pieces.length ≤ rounds
  inside : pieces.flatten <+: stream
  verdict : (parseClientHello (memory pieces.flatten) pieces.flatten.length).1 ≠ .needMore

namespace Conn

/-- The connection knows what the verdict on the stream says. -/
structure Knows (c : Conn) (stream targetHost : Bytes) : Prop where
  complete : c.helloComplete =
    decide ((parseClientHello (memory stream) stream.length).1 = .ok)
  hello : c.hello = (parseClientHello (memory stream) stream.length).2
  targetHost : c.targetHost =
    if c.helloComplete = true ∧ c.hello.serverName ≠ [] then normalizeHost c.hello.serverName
    else targetHost

theorem recv_of_isPrefix {client : Endpoint} {piece : Bytes} {pieces : List Bytes}
    (h : (piece :: pieces).map RecvResult.data <+: client.recvs) :
    ∃ client', client.recv = (.data piece, client') ∧
      pieces.map RecvResult.data <+: client'.recvs := by
  obtain ⟨rest, hrest⟩ := h
  refine ⟨{ client with
    recvs := pieces.map RecvResult.data ++ rest
    read := client.read ++ piece }, ?_, List.prefix_append _ _⟩
  rw [Endpoint.recv, ← hrest]
  rfl

/-- The loop from any point at which there is no verdict yet. -/
theorem collectLoop_knows {stream : Bytes} (pieces : List Bytes) (rounds : ℕ) (c : Conn)
    (harrive : pieces.map RecvResult.data <+: c.client.recvs)
    (hnonempty : ∀ piece ∈ pieces, piece ≠ []) (hrounds : pieces.length ≤ rounds)
    (hinside : c.clientBuffer ++ pieces.flatten <+: stream)
    (hwaiting : (parseClientHello (memory c.clientBuffer) c.clientBuffer.length).1 = .needMore)
    (hverdict : (parseClientHello (memory (c.clientBuffer ++ pieces.flatten))
      (c.clientBuffer ++ pieces.flatten).length).1 ≠ .needMore)
    (hincomplete : c.helloComplete = false) :
    (collectLoop rounds c).1 = true ∧ (collectLoop rounds c).2.Knows stream c.targetHost := by
  induction pieces generalizing rounds c with
  | nil =>
      rw [List.flatten_nil, List.append_nil] at hverdict
      exact absurd hwaiting hverdict
  | cons piece pieces ih =>
      obtain ⟨rounds, rfl⟩ : ∃ k, rounds = k + 1 :=
        ⟨rounds - 1, by rw [List.length_cons] at hrounds; omega⟩
      obtain ⟨client, hrecv, harrive⟩ := recv_of_isPrefix harrive
      rw [List.flatten_cons, ← List.append_assoc] at hinside hverdict
      have hpre : c.clientBuffer ++ piece <+: stream :=
        (List.prefix_append _ _).trans hinside
      -- A stream that is no hello is left as it is.
      have hplain : (parseClientHello (memory (c.clientBuffer ++ piece))
          (c.clientBuffer ++ piece).length).1 ≠ .needMore →
          (parseClientHello (memory (c.clientBuffer ++ piece))
            (c.clientBuffer ++ piece).length).1 ≠ .ok →
          Knows { c with
            client
            clientBuffer := c.clientBuffer ++ piece
            hello := (parseClientHello (memory (c.clientBuffer ++ piece))
              (c.clientBuffer ++ piece).length).2 } stream c.targetHost := by
        intro hmore hok
        have hsame := parseClientHello_of_isPrefix hpre hmore
        refine ⟨?_, ?_, ?_⟩
        · rw [hsame, decide_eq_false hok]
          exact hincomplete
        · rw [hsame]
        · simp [hincomplete]
      rw [collectLoop, hrecv]
      dsimp only
      rw [if_neg (hnonempty piece (by simp))]
      cases hstatus : (parseClientHello (memory (c.clientBuffer ++ piece))
          (c.clientBuffer ++ piece).length).1 with
      | needMore =>
          have hlt : (c.clientBuffer ++ piece).length < maxHelloBuffer := by
            have := needMore_length_lt hstatus
            simp only [recordHeaderSize, maxRecordPayload, maxHelloBuffer] at this ⊢
            omega
          dsimp only
          rw [if_neg (by omega)]
          refine ih rounds _ harrive (fun p hp => hnonempty p (List.mem_cons_of_mem _ hp)) ?_
            hinside hstatus hverdict hincomplete
          rw [List.length_cons] at hrounds
          omega
      | ok =>
          have hsame := parseClientHello_of_isPrefix hpre (by rw [hstatus]; simp)
          refine ⟨rfl, ?_, ?_, ?_⟩
          · rw [hsame, hstatus]
            rfl
          · rw [hsame]
          · cases hname : (parseClientHello (memory (c.clientBuffer ++ piece))
              (c.clientBuffer ++ piece).length).2.serverName <;> simp
      | notTls => exact ⟨rfl, hplain (by rw [hstatus]; simp) (by rw [hstatus]; simp)⟩
      | malformed => exact ⟨rfl, hplain (by rw [hstatus]; simp) (by rw [hstatus]; simp)⟩

theorem collectClientHello_knows {c : Conn} {rounds : ℕ} {stream : Bytes} {pieces : List Bytes}
    (h : Settles c.client rounds stream pieces) :
    (c.collectClientHello rounds).1 = true ∧
      (c.collectClientHello rounds).2.Knows stream c.targetHost := by
  refine collectLoop_knows pieces rounds
    { c with clientBuffer := [], helloComplete := false } h.arrive h.nonempty h.rounds h.inside
    rfl ?_ rfl
  exact h.verdict

end Conn

/-- Verdicts on a stream are final, come with the last byte of the record and no later
than with the longest one; so what the relay knows of the hello does not depend on the
pieces it arrived in. -/
theorem clientHello_streaming :
    (∀ (stream : Bytes) (n m : ℕ), n ≤ m → (parsePrefix stream n).1 ≠ .needMore →
      parsePrefix stream m = parsePrefix stream n) ∧
    (∀ (record : Bytes) (hello : ClientHello),
      parseClientHello (memory record) record.length = (.ok, hello) →
      hello.recordTotalLength = record.length →
      ∀ n < record.length, (parsePrefix record n).1 = .needMore) ∧
    (∀ buffer : Bytes, (parseClientHello (memory buffer) buffer.length).1 = .needMore →
      buffer.length < 16389 ∧ ¬ maxHelloBuffer ≤ buffer.length) ∧
    ∀ (c : Conn) (client client' : Endpoint) (rounds rounds' : ℕ) (stream : Bytes)
      (pieces pieces' : List Bytes),
      Settles client rounds stream pieces → Settles client' rounds' stream pieces' →
      let left := (Conn.collectClientHello { c with client } rounds).2
      let right := (Conn.collectClientHello { c with client := client' } rounds').2
      left.helloComplete = right.helloComplete ∧ left.hello = right.hello ∧
        left.targetHost = right.targetHost := by
  refine ⟨?_, ?_, ?_, ?_⟩
  · intro stream n m hnm h
    exact parsePrefix_mono hnm h
  · intro record hello hok hexact n hn
    exact parsePrefix_of_exact hok hexact hn
  · intro buffer h
    have hlt := needMore_length_lt h
    simp only [recordHeaderSize, maxRecordPayload] at hlt
    rw [maxHelloBuffer]
    omega
  · intro c client client' rounds rounds' stream pieces pieces' h h' left right
    have hleft : left.Knows stream c.targetHost :=
      (Conn.collectClientHello_knows (c := { c with client }) h).2
    have hright : right.Knows stream c.targetHost :=
      (Conn.collectClientHello_knows (c := { c with client := client' }) h').2
    have hcomplete : left.helloComplete = right.helloComplete :=
      hleft.complete.trans hright.complete.symm
    have hhello : left.hello = right.hello := hleft.hello.trans hright.hello.symm
    refine ⟨hcomplete, hhello, ?_⟩
    rw [hleft.targetHost, hright.targetHost, hcomplete, hhello]

/-- The sample hello in one piece, and byte by byte with what follows it. -/
theorem clientHello_streaming_sample :
    ∃ c c' : Conn, c.client.recvs = [.data sampleBuffer] ∧
      c'.client.recvs = sampleBuffer.map (fun b => .data [b]) ∧
      (c.collectClientHello 1).2.hello = (c'.collectClientHello 68).2.hello := by
  obtain ⟨once, honce⟩ : ∃ once : Endpoint, once.recvs = [.data sampleBuffer] :=
    ⟨{ recvs := [.data sampleBuffer] }, rfl⟩
  obtain ⟨slowly, hslowly⟩ : ∃ slowly : Endpoint,
      slowly.recvs = sampleBuffer.map fun b => .data [b] :=
    ⟨{ recvs := sampleBuffer.map fun b => .data [b] }, rfl⟩
  have hok : (parseClientHello (memory sampleBuffer) sampleBuffer.length).1 ≠ .needMore := by
    rw [parseClientHello_sampleBuffer]
    simp
  have hflatten : (sampleBuffer.map fun b => [b]).flatten = sampleBuffer := by decide
  have hwhole : Settles once 1 sampleBuffer [sampleBuffer] := by
    refine ⟨?_, by decide, le_rfl, by simp, by simpa using hok⟩
    rw [honce]
    exact List.prefix_rfl
  have hbytes : Settles slowly 68 sampleBuffer (sampleBuffer.map fun b => [b]) := by
    refine ⟨?_, ?_, by decide, hflatten ▸ List.prefix_rfl, by rwa [hflatten]⟩
    · rw [hslowly, List.map_map]
      exact List.prefix_rfl
    · intro piece hpiece
      obtain ⟨b, -, rfl⟩ := List.mem_map.1 hpiece
      exact List.cons_ne_nil b []
  have hsame := clientHello_streaming.2.2.2 {} once slowly 1 68 sampleBuffer [sampleBuffer]
    (sampleBuffer.map fun b => [b]) hwhole hbytes
  exact ⟨_, _, honce, hslowly, hsame.2.1⟩

end Relay

end SplitHello
