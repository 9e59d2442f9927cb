import SplitHello.Library.ByteString

/-!
# Blocking sends

A connected socket is the list of what its next `send` calls will answer and
the bytes it has taken so far; past the end of the list every call takes all it
is given. `sendAll` loops until the buffer is gone or a call fails.

`Wrote sock data r` is the one description of a write used above this module: a
prefix of `data` went out, all of it when the write reports success, and it does
report success on a socket whose calls never fail.
-/

namespace SplitHello

namespace Relay

open ByteString

/-- What one `send` call answers. -/
inductive SendResult
  | accepted (bytes : ℕ)
  | wouldBlock
  | failed
  deriving DecidableEq, Repr

/-- The sending side of a connected socket. -/
structure Socket where
  sends : List SendResult := []
  sent : Bytes := []
  deriving DecidableEq, Repr

/-- Largest buffer passed to one `send` call. -/
def maxSendChunk : ℕ := 2 ^ 20

/-- The loop of `sendAll` over the answers of the socket. -/
def sendLoop : List SendResult → Bytes → Bytes → Bool × Socket
  | sends, [], sent => (true, { sends, sent })
  | [], data, sent => (true, { sends := [], sent := sent ++ data })
  | .wouldBlock :: sends, data, sent => sendLoop sends data sent
  | .failed :: sends, _, sent => (false, { sends, sent })
  | .accepted n :: sends, data, sent =>
      let taken := min n (min data.length maxSendChunk)
      if taken = 0 then (false, { sends, sent })
      else sendLoop sends (data.drop taken) (sent ++ data.take taken)

def sendAll (sock : Socket) (data : Bytes) : Bool × Socket :=
  sendLoop sock.sends data sock.sent

/-- An answer that lets a write go on. -/
def SendResult.Willing : SendResult → Prop
  | .accepted n => 0 < n
  | .wouldBlock => True
  | .failed => False

/-- Every send succeeds, in pieces or after a while. -/
def Socket.Willing (sock : Socket) : Prop := ∀ r ∈ sock.sends, r.Willing

structure Wrote (sock : Socket) (data : Bytes) (r : Bool × Socket) : Prop where
  part : ∃ p, p <+: data ∧ r.2.sent = sock.sent ++ p
  all : r.1 = true → r.2.sent = sock.sent ++ data
  willing : sock.Willing → r.1 = true ∧ r.2.Willing

theorem Wrote.nothing (sock : Socket) : Wrote sock [] (true, sock) :=
  ⟨⟨[], List.prefix_rfl, by simp⟩, fun _ => by simp, fun h => ⟨rfl, h⟩⟩

/-- Two writes in a row, the second only if the first went through. -/
theorem Wrote.andThen {sock : Socket} {a b : Bytes} {r r' : Bool × Socket}
    (h : Wrote sock a r) (h' : Wrote r.2 b r') :
    Wrote sock (a ++ b) (if r.1 then r' else (false, r.2)) := by
  obtain ⟨ok, mid⟩ := r
  cases ok with
  | false =>
      refine ⟨?_, by simp, ?_⟩
      · obtain ⟨p, hp, hsent⟩ := h.part
        exact ⟨p, hp.trans (List.prefix_append a b), hsent⟩
      · intro hw
        exact absurd (h.willing hw).1 (by simp)
  | true =>
      have hall := h.all rfl
      refine ⟨?_, ?_, ?_⟩
      · obtain ⟨p, hp, hsent⟩ := h'.part
        refine ⟨a ++ p, (List.prefix_append_right_inj a).2 hp, ?_⟩
        dsimp only at hall hsent ⊢
        rw [if_pos rfl, hsent, hall, List.append_assoc]
      · intro hok
        have hsent := h'.all (by simpa using hok)
        dsimp only at hall hsent ⊢
        rw [if_pos rfl, hsent, hall, List.append_assoc]
      · intro hw
        simpa using h'.willing (h.willing hw).2

theorem sendLoop_wrote (sends : List SendResult) (data sent : Bytes) :
    Wrote { sends, sent } data (sendLoop sends data sent) := by
  induction sends, data, sent using sendLoop.induct with
  | case1 sends sent => simpa [sendLoop] using Wrote.nothing _
  | case2 data sent hne =>
      rw [sendLoop]
      exact ⟨⟨data, List.prefix_rfl, rfl⟩, fun _ => rfl, fun _ => ⟨rfl, by simp [Socket.Willing]⟩⟩
      simpa using hne
  | case3 sends data sent hne ih =>
      rw [sendLoop]
      · refine ⟨ih.part, ih.all, fun hw => ih.willing fun r hr => hw r ?_⟩
        exact List.mem_cons_of_mem _ hr
      · simpa using hne
  | case4 sends data sent hne =>
      rw [sendLoop]
      · refine ⟨⟨[], List.nil_prefix, by simp⟩, by simp, fun hw => ?_⟩
        exact (hw .failed (by simp)).elim
      · simpa using hne
  | case5 n sends data sent hne taken hzero =>
      rw [sendLoop]
      · rw [if_pos hzero]
        refine ⟨⟨[], List.nil_prefix, by simp⟩, by simp, fun hw => ?_⟩
        have hn : 0 < n := hw (.accepted n) (by simp)
        have hlen : 0 < data.length := List.length_pos_iff.2 (by simpa using hne)
        simp only [taken, maxSendChunk] at hzero
        omega
      · simpa using hne
  | case6 n sends data sent hne taken hpos ih =>
      rw [sendLoop]
      · rw [if_neg hpos]
        have hsplit : data.take taken ++ data.drop taken = data := List.take_append_drop _ _
        refine ⟨?_, ?_, fun hw => ih.willing fun r hr => hw r (List.mem_cons_of_mem _ hr)⟩
        · obtain ⟨p, ⟨rest, hrest⟩, hsent⟩ := ih.part
          refine ⟨data.take taken ++ p, ⟨rest, ?_⟩, by rw [hsent, List.append_assoc]⟩
          rw [List.append_assoc, hrest, hsplit]
        · intro hok
          rw [ih.all hok, List.append_assoc, hsplit]
      · simpa using hne

theorem sendAll_wrote (sock : Socket) (data : Bytes) : Wrote sock data (sendAll sock data) :=
  sendLoop_wrote sock.sends data sock.sent

end Relay

end SplitHello
