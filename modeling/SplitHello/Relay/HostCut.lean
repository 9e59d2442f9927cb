import SplitHello.Relay.Reframe
import SplitHello.Tls.Hostile

/-!
# The hostname is cut

The parser leaves the place of the hostname as an offset into the buffer, and the plan
speaks in offsets into the payload of the record.

The records of a plan cover the `stretches` between consecutive boundaries. A boundary
strictly inside a range of bytes leaves no stretch that covers the whole range.
-/

namespace SplitHello

namespace Strategy

open Tls

/-! ## The cut survives -/

theorem mem_sanitize {splits : List ℕ} {n s : ℕ} :
    s ∈ sanitize splits n ↔ s ∈ splits ∧ 1 ≤ s ∧ s < n := by
  have hsorted := List.pairwise_insertionSort (· ≤ ·)
    (splits.filter fun s => !(s < 1 || s ≥ n))
  rw [sanitize, hsorted.destutter_eq_dedup, List.mem_dedup, List.mem_insertionSort,
    List.mem_filter]
  simp
  omega

/-- A profile that has a cut inside the payload gets a plan, and the cut is in it. -/
theorem buildPlan_of_mem {profile : Profile} {hello : ClientHello} {baseDelayMs s : ℕ}
    {raw : FragmentPlan} (hraw : rawPlan profile hello baseDelayMs = some raw)
    (hspans : hello.spansRecords = false) (hsni : hello.hasSni = true)
    (hpayload : 2 ≤ hello.recordPayloadLength) (hmem : s ∈ raw.recordSplits)
    (hpos : 1 ≤ s) (hlt : s < hello.recordPayloadLength) :
    ∃ plan, buildPlan profile hello baseDelayMs = some plan ∧ s ∈ plan.recordSplits := by
  have hkept : s ∈ sanitize raw.recordSplits hello.recordPayloadLength :=
    mem_sanitize.2 ⟨hmem, hpos, hlt⟩
  have hkind : profile ≠ .none ∧ isPacketProfile profile = false := by
    constructor
    · rintro rfl
      cases hraw
    · cases profile <;> first | decide | cases hraw
  have hsplits : FragmentPlan.splitsAnything { raw with
      recordSplits := sanitize raw.recordSplits hello.recordPayloadLength } = true := by
    rw [FragmentPlan.splitsAnything, List.isEmpty_eq_false_iff.2 (List.ne_nil_of_mem hkept)]
    rfl
  refine ⟨{ raw with
    recordSplits := sanitize raw.recordSplits hello.recordPayloadLength }, ?_, hkept⟩
  rw [buildPlan, if_neg hkind.1, hkind.2, if_neg Bool.false_ne_true, hspans,
    if_neg Bool.false_ne_true, hsni, Bool.not_true, Bool.and_false, if_neg Bool.false_ne_true,
    if_neg (by omega), hraw]
  exact if_pos hsplits

theorem rawPlan_middle {profile : Profile}
    (h : profile ∈ [Profile.sniMid, .sniMulti, .sniMidSlow]) {hello : ClientHello}
    (hsni : hello.hasSni = true) (baseDelayMs : ℕ) :
    ∃ raw, rawPlan profile hello baseDelayMs = some raw ∧
      hello.sniOffset - recordHeaderSize + hello.sniLength / 2 ∈ raw.recordSplits := by
  simp only [List.mem_cons, List.not_mem_nil, or_false] at h
  rcases h with rfl | rfl | rfl
  · exact ⟨_, rfl, by simp [hsni]⟩
  · exact ⟨_, rfl, by simp [hsni]⟩
  · exact ⟨_, rfl, by simp [hsni]⟩

/-- Outside the baseline and the packet profiles a plan is never empty. -/
theorem buildPlan_ne_nil {profile : Profile} (hnone : profile ≠ .none)
    (hpacket : isPacketProfile profile = false) {hello : ClientHello} {baseDelayMs : ℕ}
    {plan : FragmentPlan} (h : buildPlan profile hello baseDelayMs = some plan) :
    plan.recordSplits ≠ [] := by
  unfold buildPlan at h
  rw [if_neg hnone, hpacket, if_neg Bool.false_ne_true] at h
  split at h
  · cases h
  split at h
  · cases h
  split at h
  · cases h
  split at h
  · cases h
  dsimp only at h
  split at h
  · rename_i hsplits
    cases h
    intro hnil
    rw [FragmentPlan.splitsAnything, hnil] at hsplits
    cases hsplits
  · cases h

end Strategy

namespace Relay

open ByteString Tls Strategy

/-! ## No record holds the name -/

/-- The payload offsets that the records between consecutive boundaries cover. -/
def stretches : ℕ → List ℕ → List (ℕ × ℕ)
  | _, [] => []
  | start, stop :: rest => (start, stop) :: stretches stop rest

/-- The record of a stretch. -/
def Record.covering (data : Memory) (stretch : ℕ × ℕ) : Record :=
  recordBetween data stretch.1 stretch.2

theorem recordsFrom_eq_map (data : Memory) (start : ℕ) (boundaries : List ℕ) :
    recordsFrom data start boundaries =
      (stretches start boundaries).map (Record.covering data) := by
  induction boundaries generalizing start with
  | nil => rfl
  | cons stop rest ih =>
      rw [recordsFrom, stretches, List.map_cons, ih]
      rfl

/-- No stretch begins before the first one. -/
theorem stretches_start_le {start : ℕ} {boundaries : List ℕ}
    (hasc : (start :: boundaries).Pairwise (· < ·)) :
    ∀ stretch ∈ stretches start boundaries, start ≤ stretch.1 := by
  induction boundaries generalizing start with
  | nil => simp [stretches]
  | cons stop rest ih =>
      obtain ⟨hlt, hrest⟩ := List.pairwise_cons.1 hasc
      intro stretch hstretch
      rcases List.mem_cons.1 hstretch with rfl | hstretch
      · exact le_rfl
      · exact (hlt stop (by simp)).le.trans (ih hrest stretch hstretch)

/-- A stretch ends at or before a boundary, or begins at or behind it. -/
theorem stretches_split {start s : ℕ} {boundaries : List ℕ}
    (hasc : (start :: boundaries).Pairwise (· < ·)) (hs : s ∈ boundaries) :
    ∀ stretch ∈ stretches start boundaries, stretch.2 ≤ s ∨ s ≤ stretch.1 := by
  induction boundaries generalizing start with
  | nil => cases hs
  | cons stop rest ih =>
      obtain ⟨hlt, hrest⟩ := List.pairwise_cons.1 hasc
      intro stretch hstretch
      rcases List.mem_cons.1 hstretch with rfl | hstretch
      · refine Or.inl ?_
        rcases List.mem_cons.1 hs with rfl | hs
        · exact le_rfl
        · exact ((List.pairwise_cons.1 hrest).1 s hs).le
      · rcases List.mem_cons.1 hs with rfl | hs
        · exact Or.inr (stretches_start_le hrest stretch hstretch)
        · exact ih hrest hs stretch hstretch

/-- The payload offsets that the records of a plan cover. -/
def covered (hello : ClientHello) (plan : FragmentPlan) : List (ℕ × ℕ) :=
  stretches 0 (plan.recordSplits ++ [hello.recordPayloadLength])

/-- What `writeFragmented` writes, with the bytes of the buffer each record covers. -/
theorem writeFragmented_covered (clientBuffer : Bytes) (hello : ClientHello)
    (plan : FragmentPlan) (sock : Socket) :
    Wrote sock
      (((covered hello plan).map (Record.covering (memory clientBuffer))).flatMap Record.encode)
      (writeFragmented clientBuffer hello plan sock) := by
  rw [covered, ← recordsFrom_eq_map]
  exact writeFragmented_wrote clientBuffer hello plan sock

/-- The hostname is really cut. For an accepted hello with a name of two bytes or more,
the profiles that aim at the middle of the name have a plan, and what `writeFragmented`
sends for it, on any socket, are records of which none covers the whole name. The plans
of `sni-pre` and `record-1` have at least one cut strictly inside the payload. -/
theorem hostname_cut (clientBuffer : Bytes) (hello : ClientHello) (baseDelayMs : ℕ)
    (hparse : parseClientHello (memory clientBuffer) clientBuffer.length = (.ok, hello))
    (hspans : hello.spansRecords = false) (hname : 2 ≤ hello.sniLength) :
    (∀ profile ∈ [Profile.sniMid, .sniMulti, .sniMidSlow],
      ∃ plan, buildPlan profile hello baseDelayMs = some plan ∧
        (∀ sock, Wrote sock
          (((covered hello plan).map
            (Record.covering (memory clientBuffer))).flatMap Record.encode)
          (writeFragmented clientBuffer hello plan sock)) ∧
        ∀ stretch ∈ covered hello plan,
          ¬(recordHeaderSize + stretch.1 ≤ hello.sniOffset ∧
            hello.sniOffset + hello.sniLength ≤ recordHeaderSize + stretch.2)) ∧
    ∀ profile ∈ [Profile.sniPre, .record1],
      ∀ plan, buildPlan profile hello baseDelayMs = some plan →
        ∃ s ∈ plan.recordSplits, 1 ≤ s ∧ s < hello.recordPayloadLength := by
  have hrecord := parseClientHello_ok hparse
  have hpayload := hrecord.payload_ge
  have hsni : hello.hasSni = true := by
    rw [ClientHello.hasSni]
    exact decide_eq_true (by omega)
  obtain ⟨hlo, hhi⟩ := parseClientHello_nameInside hparse hsni
  rw [hrecord.total] at hhi
  constructor
  · intro profile hcuts
    obtain ⟨raw, hraw, hmem⟩ := rawPlan_middle hcuts hsni baseDelayMs
    obtain ⟨plan, hplan, hkept⟩ := buildPlan_of_mem hraw hspans hsni (by omega) hmem (by omega)
      (by omega)
    refine ⟨plan, hplan, writeFragmented_covered clientBuffer hello plan, ?_⟩
    have hbounds := Cuts.boundaries (buildPlan_cuts hplan) (by omega)
    intro stretch hstretch hwhole
    rcases stretches_split hbounds.ascending (List.mem_append_left _ hkept) stretch hstretch
      with hbefore | hbehind
    · omega
    · omega
  · intro profile hcuts plan hplan
    have hkind : profile ≠ .none ∧ isPacketProfile profile = false := by
      simp only [List.mem_cons, List.not_mem_nil, or_false] at hcuts
      rcases hcuts with rfl | rfl
      · exact ⟨by simp, by decide⟩
      · exact ⟨by simp, by decide⟩
    obtain ⟨s, hs⟩ := List.exists_mem_of_ne_nil _ (buildPlan_ne_nil hkind.1 hkind.2 hplan)
    exact ⟨s, hs, (buildPlan_cuts hplan).inside s hs⟩

theorem hostname_cut_sample :
    (∀ profile ∈ [Profile.sniMid, .sniMulti, .sniMidSlow],
      ∃ plan, buildPlan profile sampleHello 20 = some plan ∧
        (∀ sock, Wrote sock
          (((covered sampleHello plan).map
            (Record.covering (memory sampleBuffer))).flatMap Record.encode)
          (writeFragmented sampleBuffer sampleHello plan sock)) ∧
        ∀ stretch ∈ covered sampleHello plan,
          ¬(recordHeaderSize + stretch.1 ≤ sampleHello.sniOffset ∧
            sampleHello.sniOffset + sampleHello.sniLength ≤ recordHeaderSize + stretch.2)) ∧
    ∀ profile ∈ [Profile.sniPre, .record1],
      ∀ plan, buildPlan profile sampleHello 20 = some plan →
        ∃ s ∈ plan.recordSplits, 1 ≤ s ∧ s < sampleHello.recordPayloadLength :=
  hostname_cut sampleBuffer sampleHello 20 parseClientHello_sampleBuffer rfl (by decide)

end Relay

end SplitHello
