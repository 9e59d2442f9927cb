import SplitHello.Packet.FirstTls
import Mathlib.Algebra.Group.Int.Defs

/-!
# Segments that replace a payload

The segments of a policy count their offsets from the sequence number of the packet they
replace. In reverse order they are the payload cut in two. With an overlap the first one
starts with cover bytes for offsets that belong to the second; a receiver keeps it back,
delivers the second, and of the first only what lies behind. It does not keep it back if the
cover bytes reach the start of the packet.
-/

namespace SplitHello

namespace Packet

open ByteString Pieces

/-- A segment as the receiver sees it, which has everything before the packet. -/
def Segment.piece (s : Segment) : Piece UInt8 := ⟨s.sequenceOffset.toNat, s.payload⟩

/-- Two segments that stand for the payload. -/
structure Carries (payload : Bytes) (policy : Policy) (first second : Segment) : Prop where
  built : buildSegments payload policy = [first, second]
  offsets : ∀ s ∈ [first, second], 0 ≤ s.sequenceOffset ∧ s.sequenceOffset < 2 ^ 31
  partition : policy.mode = .reverseOrder →
    second.sequenceOffset = 0 ∧ first.sequenceOffset = second.payload.length ∧
      second.payload ++ first.payload = payload ∧ second.payload ≠ [] ∧ first.payload ≠ []
  cover : policy.mode = .sequenceOverlap →
    ∃ coverBytes split, second = ⟨0, payload.take split⟩ ∧ split < payload.length ∧
      first.payload = coverBytes ++ payload.drop split ∧
      first.sequenceOffset + coverBytes.length = split
  delivered : reassemble [first.piece, second.piece] = payload

section

variable {payload : Bytes} {policy : Policy}

/-- The segments that are built have every property but the last whatever they carry. -/
theorem buildSegments_carries (hlength : 2 ≤ payload.length) (hmax : payload.length < 2 ^ 31)
    (hmode : policy.mode = .reverseOrder ∨ policy.mode = .sequenceOverlap)
    (hdelivered : reassemble (segmentPieces policy payload) = payload) :
    ∃ first second, Carries payload policy first second := by
  obtain ⟨hpos, hlt⟩ := segmentSplit_bounds policy hlength
  have hlead := length_lead_le policy hlength
  refine ⟨_, _, buildSegments_eq hlength hmode, ?_, ?_, ?_, hdelivered⟩
  · intro s hs
    rcases List.mem_cons.1 hs with rfl | hs
    · dsimp only
      omega
    · rw [List.mem_singleton.1 hs]
      exact ⟨Int.le_refl 0, show (0 : ℤ) < 2 ^ 31 by decide⟩
  · intro hreverse
    have hnone : lead policy payload.length = [] := by
      rw [lead, if_neg (by rw [hreverse]; decide)]
    have htake : (payload.take (segmentSplit policy payload.length)).length =
        segmentSplit policy payload.length := List.length_take_of_le hlt.le
    have hdrop := List.length_drop (i := segmentSplit policy payload.length) (l := payload)
    rw [hnone]
    refine ⟨rfl, ?_, List.take_append_drop _ _, ?_, ?_⟩
    · rw [htake]
      rfl
    · exact List.ne_nil_of_length_pos (htake.symm ▸ hpos)
    · refine List.ne_nil_of_length_pos ?_
      rw [List.nil_append, hdrop]
      omega
  · intro _
    refine ⟨lead policy payload.length, segmentSplit policy payload.length, rfl, hlt, rfl, ?_⟩
    dsimp only
    omega

/-- The segments stand for the payload unless cover bytes come in its place. -/
theorem segments_carry_iff (hlength : 2 ≤ payload.length) (hmax : payload.length < 2 ^ 31)
    (hmode : policy.mode = .reverseOrder ∨ policy.mode = .sequenceOverlap) :
    (∃ first second, Carries payload policy first second) ↔ ¬ CoverInOrder policy payload := by
  rw [← reassemble_segments policy hlength]
  constructor
  · rintro ⟨first, second, hcarries⟩
    have hbuilt := hcarries.built
    rw [buildSegments_eq hlength hmode] at hbuilt
    obtain ⟨rfl, rfl⟩ : _ = first ∧ _ = second := by simpa using hbuilt
    exact hcarries.delivered
  · exact buildSegments_carries hlength hmax hmode

end

theorem segments_carry_sample :
    ∃ first second, Carries [0, 1, 2, 3, 4, 5]
      { mode := .sequenceOverlap, splitOffset := 4, overlapBytes := 2 } first second :=
  (segments_carry_iff (by decide) (by decide) (Or.inr rfl)).2 fun h =>
    absurd h.reaches (by decide)

/-- With the split in front and the default overlap the cover bytes are delivered. -/
theorem cover_delivered :
    ¬ ∃ first second, Carries [0, 1, 2, 3, 4, 5]
      { mode := .sequenceOverlap, splitOffset := 2 } first second := by
  rintro ⟨first, second, hcarries⟩
  have hbuilt : buildSegments [0, 1, 2, 3, 4, 5] { mode := .sequenceOverlap, splitOffset := 2 } =
      [⟨0, [0x16, 3, 2, 3, 4, 5]⟩, ⟨0, [0, 1]⟩] := by decide +kernel
  have hpair := hcarries.built.symm.trans hbuilt
  obtain ⟨rfl, rfl⟩ : first = _ ∧ second = _ := by simpa using hpair
  exact absurd hcarries.delivered (by decide)

end Packet

end SplitHello
