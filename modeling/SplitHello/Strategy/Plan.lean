import SplitHello.Tls.ClientHello
import Mathlib.Data.List.Sort
import Mathlib.Data.List.Destutter

/-!
# Fragmentation profiles and plans

The profile table is an enumeration; its names occur only where text does, in
the strategy file and on the command line. `buildPlan` turns a profile into the
cuts for one particular hello. Cuts are offsets within the record payload;
`Cuts n` is what the rest of the program relies on: they ascend strictly and lie
strictly inside a payload of `n` bytes.
-/

namespace SplitHello

namespace Strategy

open ByteString Tls

/-- The rows of the profile table. -/
inductive Profile
  | none
  | sniMid
  | record1
  | packetReverse
  | packetIpfrag
  | packetFakeBadseq
  | packetAutottl
  | packetSeqovl
  | sniPre
  | sniMulti
  | packetFakeBadsum
  | sniMidSlow
  deriving DecidableEq, Repr

/-- The probe order of an unknown path. -/
def profileTable : List Profile :=
  [.none, .sniMid, .record1, .packetReverse, .packetIpfrag, .packetFakeBadseq,
    .packetAutottl, .packetSeqovl, .sniPre, .sniMulti, .packetFakeBadsum, .sniMidSlow]

def Profile.name : Profile → Bytes
  | .none => ofString "none"
  | .sniMid => ofString "sni-mid"
  | .record1 => ofString "record-1"
  | .packetReverse => ofString "packet-reverse"
  | .packetIpfrag => ofString "packet-ipfrag"
  | .packetFakeBadseq => ofString "packet-fake-badseq"
  | .packetAutottl => ofString "packet-autottl"
  | .packetSeqovl => ofString "packet-seqovl"
  | .sniPre => ofString "sni-pre"
  | .sniMulti => ofString "sni-multi"
  | .packetFakeBadsum => ofString "packet-fake-badsum"
  | .sniMidSlow => ofString "sni-mid-slow"

def Profile.requiresSni : Profile → Bool
  | .sniMid | .sniPre | .sniMulti | .sniMidSlow => true
  | _ => false

def isPacketProfile (profile : Profile) : Bool :=
  (ofString "packet-").isPrefixOf profile.name

def findProfile (name : Bytes) : Option Profile :=
  profileTable.find? fun p => p.name = name

theorem findProfile_name (p : Profile) : findProfile p.name = some p := by
  cases p <;> decide

theorem nodup_profileTable : profileTable.Nodup := by decide

theorem mem_profileTable (p : Profile) : p ∈ profileTable := by
  cases p <;> decide

/-- The cuts for one hello. -/
structure FragmentPlan where
  recordSplits : List ℕ := []
  writeChunk : ℕ := 0
  delayMs : ℕ := 0
  deriving DecidableEq, Repr

def FragmentPlan.splitsAnything (plan : FragmentPlan) : Bool := !plan.recordSplits.isEmpty

def slowProfileMinDelayMs : ℕ := 40

/-- Drops out-of-range cuts, sorts, dedupes. -/
def sanitize (splits : List ℕ) (payloadLength : ℕ) : List ℕ :=
  ((splits.filter fun s => !(s < 1 || s ≥ payloadLength)).insertionSort (· ≤ ·)).destutter (· ≠ ·)

/-- The cuts of a profile before they are sanitized, with the write chunk and
the pause; `none` for profiles that do not cut. -/
def rawPlan (profile : Profile) (hello : ClientHello) (baseDelayMs : ℕ) :
    Option FragmentPlan :=
  let sniStart := if hello.hasSni then hello.sniOffset - recordHeaderSize else 0
  let sniMiddle := sniStart + hello.sniLength / 2
  let sniEnd := sniStart + hello.sniLength
  match profile with
  | .sniMid => some { recordSplits := [sniMiddle], delayMs := baseDelayMs }
  | .record1 => some { recordSplits := [1], delayMs := baseDelayMs }
  | .sniPre => some { recordSplits := [sniStart], delayMs := baseDelayMs }
  | .sniMulti =>
      some { recordSplits := [1, sniStart, sniMiddle, sniEnd], delayMs := baseDelayMs }
  | .sniMidSlow =>
      some { recordSplits := [sniMiddle], writeChunk := 4,
             delayMs := max (baseDelayMs * 2 % 2 ^ 32) slowProfileMinDelayMs }
  | _ => none

/-- The plan of a profile for this hello, or `none` where the profile cannot
apply. The untouched baseline and the packet profiles have the empty plan. -/
def buildPlan (profile : Profile) (hello : ClientHello) (baseDelayMs : ℕ) :
    Option FragmentPlan :=
  if profile = .none then some {}
  else if isPacketProfile profile then some {}
  else if hello.spansRecords then none
  else if profile.requiresSni && !hello.hasSni then none
  else if hello.recordPayloadLength < 2 then none
  else
    match rawPlan profile hello baseDelayMs with
    | none => none
    | some raw =>
        let plan := { raw with recordSplits := sanitize raw.recordSplits hello.recordPayloadLength }
        if plan.splitsAnything then some plan else none

/-- Strictly ascending offsets strictly inside `n` bytes. -/
structure Cuts (n : ℕ) (splits : List ℕ) : Prop where
  ascending : splits.Pairwise (· < ·)
  inside : ∀ s ∈ splits, 1 ≤ s ∧ s < n

theorem Cuts.nil (n : ℕ) : Cuts n [] := ⟨List.Pairwise.nil, by simp⟩

theorem sanitize_cuts (splits : List ℕ) (n : ℕ) : Cuts n (sanitize splits n) := by
  have hsub : (sanitize splits n).Sublist
      ((splits.filter fun s => !(s < 1 || s ≥ n)).insertionSort (· ≤ ·)) :=
    List.destutter_sublist _ _
  have hle : (sanitize splits n).Pairwise (· ≤ ·) :=
    (List.pairwise_insertionSort (· ≤ ·) _).sublist hsub
  have hne : (sanitize splits n).IsChain (· ≠ ·) := List.isChain_destutter _ _
  refine ⟨?_, ?_⟩
  · have hlt : (sanitize splits n).IsChain (· < ·) := by
      rw [List.isChain_iff_getElem] at hne ⊢
      intro i hi
      exact lt_of_le_of_ne (hle.rel_get_of_lt (Nat.lt_succ_self i)) (hne i hi)
    exact hlt.pairwise
  · intro s hs
    have hmem := (List.mem_insertionSort (· ≤ ·)).1 (hsub.subset hs)
    have := (List.mem_filter.1 hmem).2
    simp at this
    omega

/-- Every plan cuts strictly inside the payload of the hello it was made for. -/
theorem buildPlan_cuts {profile : Profile} {hello : ClientHello} {baseDelayMs : ℕ}
    {plan : FragmentPlan} (h : buildPlan profile hello baseDelayMs = some plan) :
    Cuts hello.recordPayloadLength plan.recordSplits := by
  unfold buildPlan at h
  split at h
  · cases h
    exact Cuts.nil _
  split at h
  · cases h
    exact Cuts.nil _
  split at h
  · cases h
  split at h
  · cases h
  split at h
  · cases h
  split at h
  · cases h
  dsimp only at h
  split at h
  · cases h
    exact sanitize_cuts _ _
  · cases h

end Strategy

end SplitHello
