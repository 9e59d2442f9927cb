import SplitHello.Relay.Reassembly
import SplitHello.Tls.ServerFlight

/-!
# The signal of a probe

`awaitResponse` classifies what it has after every read. A verdict is final, so the pieces
in which the server's flight arrives make no difference to the signal, as long as the
verdict comes within the bytes that the loop is willing to collect.
-/

namespace SplitHello

namespace Relay

open ByteString Tls Diagnosis

/-- What a settled flight is reported as. -/
def signalOf : ServerResponseStatus → ProbeSignal
  | .serverHello => .serverHello
  | .alert => .alert
  | .unexpected => .unexpected
  | .needMore => .timeout

/-- The reads bring pieces of the stream, before any timeout, end of stream or reset, and
the stream has settled by then and within the limit. -/
structure Answers (server : Endpoint) (stream : Bytes) (pieces : List Bytes) : Prop where
  arrive : pieces.map RecvResult.data <+: server.recvs
  nonempty : ∀ piece ∈ pieces, piece ≠ []
  inside : pieces.flatten <+: stream
  settled : ∃ n ≤ maxProbeResponse, n ≤ pieces.flatten.length ∧
    classifyPrefix stream n ≠ .needMore

/-- Without a verdict there are fewer bytes than the stream needs for one. -/
theorem length_lt_of_waiting {stream out : Bytes} {n : ℕ} (hpre : out <+: stream)
    (hwaiting : classifyServerResponse (memory out) out.length = .needMore)
    (hsettled : classifyPrefix stream n ≠ .needMore) : out.length < n := by
  by_contra hlong
  have hsame := classifyPrefix_mono (Nat.le_of_not_lt hlong) hsettled
  rw [classifyPrefix, ← List.prefix_iff_eq_take.1 hpre, hwaiting] at hsame
  exact hsettled hsame.symm

/-- The loop from any point at which there is no verdict yet. -/
theorem awaitLoop_signal {stream : Bytes} {n : ℕ} (hlimit : n ≤ maxProbeResponse)
    (hsettled : classifyPrefix stream n ≠ .needMore) (pieces : List Bytes) (fuel : ℕ)
    (out : Bytes) (server : Endpoint) (harrive : pieces.map RecvResult.data <+: server.recvs)
    (hnonempty : ∀ piece ∈ pieces, piece ≠ []) (hfuel : pieces.length < fuel)
    (hinside : out ++ pieces.flatten <+: stream)
    (hwaiting : classifyServerResponse (memory out) out.length = .needMore)
    (hn : n ≤ (out ++ pieces.flatten).length) :
    (awaitLoop fuel out server).1 =
      signalOf (classifyServerResponse (memory stream) stream.length) := by
  have hshort := length_lt_of_waiting ((List.prefix_append _ _).trans hinside) hwaiting hsettled
  induction pieces generalizing fuel out server with
  | nil =>
      rw [List.flatten_nil, List.append_nil] at hn
      omega
  | cons piece pieces ih =>
      obtain ⟨fuel, rfl⟩ : ∃ k, fuel = k + 1 := ⟨fuel - 1, by omega⟩
      obtain ⟨server', hrecv, harrive⟩ := Conn.recv_of_isPrefix harrive
      rw [List.flatten_cons, ← List.append_assoc] at hinside hn
      have hpre : out ++ piece <+: stream := (List.prefix_append _ _).trans hinside
      rw [awaitLoop, if_neg (by omega), hrecv]
      dsimp only
      rw [if_neg (hnonempty piece List.mem_cons_self)]
      cases hverdict : classifyServerResponse (memory (out ++ piece)) (out ++ piece).length with
      | needMore =>
          rw [List.length_cons] at hfuel
          exact ih fuel (out ++ piece) server' harrive
            (fun p hp => hnonempty p (List.mem_cons_of_mem _ hp)) (by omega) hinside hverdict hn
            (length_lt_of_waiting hpre hverdict hsettled)
      | serverHello =>
          rw [classifyServerResponse_of_isPrefix hpre (by rw [hverdict]; simp), hverdict]
          rfl
      | alert =>
          rw [classifyServerResponse_of_isPrefix hpre (by rw [hverdict]; simp), hverdict]
          rfl
      | unexpected =>
          rw [classifyServerResponse_of_isPrefix hpre (by rw [hverdict]; simp), hverdict]
          rfl

theorem awaitResponse_signal {server : Endpoint} {stream : Bytes} {pieces : List Bytes}
    (h : Answers server stream pieces) :
    server.awaitResponse.1 =
      signalOf (classifyServerResponse (memory stream) stream.length) := by
  obtain ⟨n, hlimit, hn, hsettled⟩ := h.settled
  have hrounds := h.arrive.length_le
  rw [List.length_map] at hrounds
  exact awaitLoop_signal hlimit hsettled pieces (server.recvs.length + 1) [] server h.arrive
    h.nonempty (by omega) h.inside rfl hn

/-- The verdict on a flight does not depend on how much of it has arrived, once there is
one; its loop ends after a round for each byte and never reads outside the buffer; and the
signal of a probe does not depend on the pieces in which the flight arrives. -/
theorem probe_packetisation :
    (∀ (stream : Bytes) (n m : ℕ), n ≤ m → classifyPrefix stream n ≠ .needMore →
      classifyPrefix stream m = classifyPrefix stream n) ∧
    (∀ (data : Memory) (len rounds : ℕ), len < rounds →
      Checked.classifyServerResponse data len rounds = some (classifyServerResponse data len)) ∧
    ∀ (server server' : Endpoint) (stream : Bytes) (pieces pieces' : List Bytes),
      Answers server stream pieces → Answers server' stream pieces' →
      server.awaitResponse.1 = server'.awaitResponse.1 := by
  refine ⟨?_, ?_, ?_⟩
  · intro stream n m hnm h
    exact classifyPrefix_mono hnm h
  · intro data len rounds hrounds
    exact Checked.classifyServerResponse_eq data hrounds
  · intro server server' stream pieces pieces' h h'
    rw [awaitResponse_signal h, awaitResponse_signal h']

/-- A compatibility record and a ServerHello. -/
def sampleFlight : Bytes := [0x14, 3, 3, 0, 1, 1, 0x16, 3, 3, 0, 4, 2, 0, 0, 0]

/-- The sample flight in one piece, and byte by byte with something behind it. -/
theorem probe_packetisation_sample :
    ∃ once slowly : Endpoint, once.recvs = [.data sampleFlight] ∧
      slowly.recvs = sampleFlight.map (fun b => .data [b]) ++ [.failed] ∧
      once.awaitResponse.1 = slowly.awaitResponse.1 := by
  obtain ⟨once, honce⟩ : ∃ once : Endpoint, once.recvs = [.data sampleFlight] :=
    ⟨{ recvs := [.data sampleFlight] }, rfl⟩
  obtain ⟨slowly, hslowly⟩ : ∃ slowly : Endpoint,
      slowly.recvs = sampleFlight.map (fun b => .data [b]) ++ [.failed] :=
    ⟨{ recvs := sampleFlight.map (fun b => .data [b]) ++ [.failed] }, rfl⟩
  have hsettled : ∃ n ≤ maxProbeResponse, n ≤ sampleFlight.length ∧
      classifyPrefix sampleFlight n ≠ .needMore := ⟨15, by decide, by decide, by decide⟩
  have hflatten : (sampleFlight.map fun b => [b]).flatten = sampleFlight := by decide
  have hwhole : Answers once sampleFlight [sampleFlight] := by
    refine ⟨?_, by decide, ?_, by simpa using hsettled⟩
    · rw [honce]
      exact List.prefix_rfl
    · exact List.flatten_singleton.symm ▸ List.prefix_rfl
  have hbytes : Answers slowly sampleFlight (sampleFlight.map fun b => [b]) := by
    refine ⟨?_, ?_, ?_, by rwa [hflatten]⟩
    · rw [hslowly, List.map_map]
      exact List.prefix_append _ _
    · intro piece hpiece
      obtain ⟨b, -, rfl⟩ := List.mem_map.1 hpiece
      exact List.cons_ne_nil b []
    · exact hflatten.symm ▸ List.prefix_rfl
  exact ⟨once, slowly, honce, hslowly,
    probe_packetisation.2.2 once slowly sampleFlight _ _ hwhole hbytes⟩

end Relay

end SplitHello
