import Mathlib.Data.Nat.Notation

/-!
# A stream put together from pieces

A receiver hands on in order what it has and keeps back what lies beyond a gap. What has
been handed on is never changed: of a piece that overlaps it only the part after it
counts. Pieces that are kept back are looked at again whenever something has arrived.
-/

namespace Pieces

variable {A : Type*}

structure Piece (A : Type*) where
  start : ℕ
  content : List A
  deriving DecidableEq, Repr

structure Receiver (A : Type*) where
  delivered : List A := []
  queued : List (Piece A) := []
  deriving DecidableEq, Repr

namespace Receiver

/-- Hands on what a piece has beyond the end of what was delivered, or queues it. -/
def offer (r : Receiver A) (p : Piece A) : Receiver A :=
  if p.start ≤ r.delivered.length then
    { r with delivered := r.delivered ++ p.content.drop (r.delivered.length - p.start) }
  else { r with queued := r.queued ++ [p] }

/-- Looks once at everything that is queued. -/
def retry (r : Receiver A) : Receiver A := r.queued.foldl offer { r with queued := [] }

def drain : ℕ → Receiver A → Receiver A
  | 0, r => r
  | n + 1, r => drain n r.retry

def receive (r : Receiver A) (p : Piece A) : Receiver A :=
  (r.offer p).drain (r.offer p).queued.length

end Receiver

/-- What is delivered of pieces that arrive in this order. -/
def reassemble (pieces : List (Piece A)) : List A :=
  (pieces.foldl Receiver.receive {}).delivered

open Receiver

/-- A piece that comes before its turn loses to what it overlaps. -/
theorem reassemble_early {a b : List A} {k : ℕ} (hk : 0 < k) (hle : k ≤ a.length) :
    reassemble [⟨k, b⟩, ⟨0, a⟩] = a ++ b.drop (a.length - k) := by
  have hqueued : receive ({} : Receiver A) ⟨k, b⟩ = { queued := [⟨k, b⟩] } := by
    simp [receive, offer, drain, retry, Nat.not_le.2 hk]
  have hdelivered : receive ({ queued := [⟨k, b⟩] } : Receiver A) ⟨0, a⟩ =
      { delivered := a ++ b.drop (a.length - k) } := by
    simp [receive, offer, drain, retry, hle]
  rw [reassemble, List.foldl_cons, hqueued, List.foldl_cons, hdelivered, List.foldl_nil]

/-- What is repeated is not delivered twice. -/
theorem reassemble_again {a b : List A} (h : a.length ≤ b.length) :
    reassemble [⟨0, b⟩, ⟨0, a⟩] = b := by
  simp [reassemble, receive, offer, drain, List.drop_of_length_le h]

theorem reassemble_in_turn (a b : List A) : reassemble [⟨0, a⟩, ⟨a.length, b⟩] = a ++ b := by
  simp [reassemble, receive, offer, drain]

end Pieces
