import SplitHello.Library.InternetChecksum
import SplitHello.Packet.Policy

/-!
# Cutting a TLS packet

A policy cuts the payload of a packet in two. Either each part gets a TCP segment of its
own, the second part first and possibly behind some cover bytes, or the IP packet is cut
into two fragments, which is possible at every eighth byte only. The functions are pure;
`Cut` collects what the rest of the packet loop relies on.
-/

namespace SplitHello

namespace Packet

open ByteString InternetChecksum

/-- `std::clamp` between bounds that are in order. -/
def clamp (value low high : ℕ) : ℕ := max low (min value high)

/-! ## TCP segments -/

structure Segment where
  sequenceOffset : ℤ := 0
  payload : Bytes
  deriving DecidableEq, Repr

/-- A hello for another host, to be sent in front of the real one. -/
def buildFakeClientHello (hostname : Bytes) : Bytes :=
  if hostname = [] ∨ hostname.length > 253 then []
  else
    let extensions :=
      put16 0x0000 ++ put16 (hostname.length + 5) ++ put16 (hostname.length + 3) ++ [0] ++
        put16 hostname.length ++ hostname ++ put16 0x002b ++ put16 3 ++ [2] ++ put16 0x0304
    let body :=
      put16 0x0303 ++ (List.range 32).map (fun value => UInt8.ofNat (value + 1)) ++ [0] ++
        put16 2 ++ put16 0x1301 ++ [1] ++ [0] ++ put16 extensions.length ++ extensions
    let handshake := [1] ++ put24 body.length ++ body
    [0x16] ++ put16 0x0301 ++ put16 handshake.length ++ handshake

def segmentSplit (policy : Policy) (length : ℕ) : ℕ :=
  if length < 2 then 0 else clamp policy.splitOffset 1 (length - 1)

def splitsSni (policy : Policy) (split : ℕ) : Bool :=
  policy.sniEnd = 0 || (split > policy.sniBegin && split < policy.sniEnd)

/-- The first bytes of a hello, over and over; spaces if there is none. -/
def coverBytes (fake : Bytes) (overlap : ℕ) : Bytes :=
  (List.range overlap).map fun index =>
    if fake = [] then 0x20 else memory fake (index % fake.length)

def buildSegments (payload : Bytes) (policy : Policy) : List Segment :=
  if payload.length < 2 then []
  else
    let split := segmentSplit policy payload.length
    if policy.mode = .reverseOrder then
      [⟨split, payload.drop split⟩, ⟨0, payload.take split⟩]
    else if policy.mode = .sequenceOverlap then
      let overlap := clamp policy.overlapBytes 1 split
      let fake := buildFakeClientHello policy.coverSni
      let second := coverBytes fake overlap ++ payload.drop split
      [⟨(split - overlap : ℕ), second⟩, ⟨0, payload.take split⟩]
    else []

/-! ## IPv4 fragments -/

def distance (target value : ℕ) : ℕ := if value > target then value - target else target - value

/-- The better of a boundary so far, 0 for none, and a candidate between two bounds. -/
def consider (target low high best candidate : ℕ) : ℕ :=
  if candidate < low ∨ candidate > high then best
  else if best = 0 ∨ distance target candidate < distance target best then candidate
  else best

/-- The cuts that leave bytes on both sides and lie inside the host name, if it is known
where that is. -/
def lowestCut (policy : Policy) : ℕ :=
  if policy.sniEnd > policy.sniBegin then max 1 (policy.sniBegin + 1) else 1

def highestCut (policy : Policy) (payloadLength : ℕ) : ℕ :=
  if policy.sniEnd > policy.sniBegin then min (payloadLength - 1) (policy.sniEnd - 1)
  else payloadLength - 1

/-- A multiple of 8 next to the cut the policy asks for, still between the bounds. -/
def ipv4FragmentBoundary (transportHeaderLength : ℕ) (policy : Policy) (payloadLength : ℕ) : ℕ :=
  let lo := lowestCut policy
  let hi := highestCut policy payloadLength
  if payloadLength < 2 ∨ lo > hi then 0
  else
    let target := transportHeaderLength + clamp policy.splitOffset lo hi
    let down := target / 8 * 8
    let up := (target + 7) / 8 * 8
    let consider := consider target (transportHeaderLength + lo) (transportHeaderLength + hi)
    consider (consider 0 down) up

/-- The header fields in which a fragment differs from the packet. -/
def finishHeader (ipHeaderLength : ℕ) (fragment : Bytes) (fragmentField : ℕ) : Bytes :=
  let fragment := splice fragment 2 (put16 fragment.length)
  let fragment := splice fragment 6 (put16 fragmentField)
  let fragment := splice fragment 10 (put16 0)
  let sum := wordSum (memory fragment) 0 ((ipHeaderLength + 1) / 2)
  splice fragment 10 (put16 (complement sum))

def buildIpv4Fragments (packet : Bytes) (ipHeaderLength firstFragmentEnd : ℕ) : List Bytes :=
  if packet.length > 0xFFFF ∨ ipHeaderLength < 20 ∨ ipHeaderLength > packet.length ∨
      firstFragmentEnd ≤ ipHeaderLength ∨ firstFragmentEnd ≥ packet.length ∨
      (memory packet 0).toNat / 16 ≠ 4 then []
  else if be16 (memory packet) 6 % 0x4000 ≠ 0 then []
  else
    let ipPayloadLength := packet.length - ipHeaderLength
    let firstPayloadLength := (firstFragmentEnd - ipHeaderLength + 7) / 8 * 8
    if firstPayloadLength = 0 ∨ firstPayloadLength ≥ ipPayloadLength then []
    else
      let first := packet.take (ipHeaderLength + firstPayloadLength)
      let second := packet.take ipHeaderLength ++ packet.drop (ipHeaderLength + firstPayloadLength)
      [finishHeader ipHeaderLength first 0x2000,
        finishHeader ipHeaderLength second (firstPayloadLength / 8)]

/-! ## Where the cuts lie -/

theorem segmentSplit_bounds (policy : Policy) {length : ℕ} (h : 2 ≤ length) :
    0 < segmentSplit policy length ∧ segmentSplit policy length < length := by
  rw [segmentSplit, if_neg (Nat.not_lt.2 h), clamp]
  omega

theorem splitsSni_iff {policy : Policy} (hknown : policy.sniBegin < policy.sniEnd) (split : ℕ) :
    splitsSni policy split = true ↔ policy.sniBegin < split ∧ split < policy.sniEnd := by
  rw [splitsSni, Bool.or_eq_true, Bool.and_eq_true, decide_eq_true_eq, decide_eq_true_eq,
    decide_eq_true_eq]
  omega

/-- What stands before the second part of the payload. -/
def lead (policy : Policy) (length : ℕ) : Bytes :=
  if policy.mode = .sequenceOverlap then
    coverBytes (buildFakeClientHello policy.coverSni)
      (clamp policy.overlapBytes 1 (segmentSplit policy length))
  else []

theorem length_coverBytes (fake : Bytes) (overlap : ℕ) :
    (coverBytes fake overlap).length = overlap := by
  simp [coverBytes]

theorem length_lead_le (policy : Policy) {length : ℕ} (h : 2 ≤ length) :
    (lead policy length).length ≤ segmentSplit policy length := by
  have hsplit := (segmentSplit_bounds policy h).1
  rw [lead]
  split
  · rw [length_coverBytes, clamp]
    omega
  · exact Nat.zero_le _

/-- The cover bytes fill the whole first part if there are enough of them. -/
theorem length_lead_eq_iff {policy : Policy} (hmode : policy.mode = .sequenceOverlap) {length : ℕ}
    (h : 2 ≤ length) : (lead policy length).length = segmentSplit policy length ↔
      segmentSplit policy length ≤ max 1 policy.overlapBytes := by
  have hsplit := (segmentSplit_bounds policy h).1
  rw [lead, if_pos hmode, length_coverBytes, clamp]
  omega

/-- Both ways to send segments: the second part behind its lead, then the first part. -/
theorem buildSegments_eq {policy : Policy} {payload : Bytes} (h : 2 ≤ payload.length)
    (hmode : policy.mode = .reverseOrder ∨ policy.mode = .sequenceOverlap) :
    buildSegments payload policy =
      [⟨(segmentSplit policy payload.length - (lead policy payload.length).length : ℕ),
          lead policy payload.length ++ payload.drop (segmentSplit policy payload.length)⟩,
        ⟨0, payload.take (segmentSplit policy payload.length)⟩] := by
  rw [buildSegments, if_neg (Nat.not_lt.2 h)]
  rcases hmode with hmode | hmode
  · simp [lead, hmode]
  · simp [lead, hmode, length_coverBytes]

theorem consider_cases (target low high best candidate : ℕ) :
    consider target low high best candidate = best ∨
      consider target low high best candidate = candidate ∧ low ≤ candidate ∧
        candidate ≤ high := by
  rw [consider]
  split
  · exact Or.inl rfl
  · rename_i hbounds
    split
    · exact Or.inr ⟨rfl, by omega⟩
    · exact Or.inl rfl

theorem cut_bounds {policy : Policy} {payloadLength cut : ℕ} (hlow : lowestCut policy ≤ cut)
    (hhigh : cut ≤ highestCut policy payloadLength) (hlength : 2 ≤ payloadLength) :
    0 < cut ∧ cut < payloadLength ∧
      (policy.sniBegin < policy.sniEnd → policy.sniBegin < cut ∧ cut < policy.sniEnd) := by
  rw [lowestCut] at hlow
  rw [highestCut] at hhigh
  split at hlow
  · rw [if_pos ‹_›] at hhigh
    omega
  · rw [if_neg ‹_›] at hhigh
    omega

/-- A boundary is a multiple of 8 with bytes on both sides, inside the host name if that
is known. -/
theorem ipv4FragmentBoundary_spec {transportHeaderLength payloadLength : ℕ} {policy : Policy}
    (hne : ipv4FragmentBoundary transportHeaderLength policy payloadLength ≠ 0) :
    ∃ cut, ipv4FragmentBoundary transportHeaderLength policy payloadLength =
        transportHeaderLength + cut ∧
      (transportHeaderLength + cut) % 8 = 0 ∧ 0 < cut ∧ cut < payloadLength ∧
      (policy.sniBegin < policy.sniEnd → policy.sniBegin < cut ∧ cut < policy.sniEnd) := by
  rw [ipv4FragmentBoundary] at hne ⊢
  dsimp only at hne ⊢
  split at hne
  · exact absurd rfl hne
  · rename_i hbounds
    rw [if_neg hbounds]
    generalize transportHeaderLength +
      clamp policy.splitOffset (lowestCut policy) (highestCut policy payloadLength) = target
      at hne ⊢
    generalize hfirst : consider target (transportHeaderLength + lowestCut policy)
      (transportHeaderLength + highestCut policy payloadLength) 0 (target / 8 * 8) = first at hne ⊢
    have hinside (boundary : ℕ) (hlow : transportHeaderLength + lowestCut policy ≤ boundary)
        (hhigh : boundary ≤ transportHeaderLength + highestCut policy payloadLength)
        (hmod : boundary % 8 = 0) :
        ∃ cut, boundary = transportHeaderLength + cut ∧
          (transportHeaderLength + cut) % 8 = 0 ∧ 0 < cut ∧ cut < payloadLength ∧
          (policy.sniBegin < policy.sniEnd → policy.sniBegin < cut ∧ cut < policy.sniEnd) := by
      obtain ⟨cut, rfl⟩ := Nat.exists_eq_add_of_le ((Nat.le_add_right _ _).trans hlow)
      exact ⟨cut, rfl, hmod, cut_bounds (Nat.le_of_add_le_add_left hlow)
        (Nat.le_of_add_le_add_left hhigh) (by omega)⟩
    rcases consider_cases target (transportHeaderLength + lowestCut policy)
      (transportHeaderLength + highestCut policy payloadLength) first ((target + 7) / 8 * 8)
      with heq | ⟨heq, hlow, hhigh⟩
    · rw [heq, ← hfirst] at hne
      rw [heq, ← hfirst]
      rcases consider_cases target (transportHeaderLength + lowestCut policy)
        (transportHeaderLength + highestCut policy payloadLength) 0 (target / 8 * 8)
        with heq | ⟨heq, hlow, hhigh⟩
      · exact absurd heq hne
      · rw [heq]
        exact hinside _ hlow hhigh (Nat.mul_mod_left _ _)
    · rw [heq]
      exact hinside _ hlow hhigh (Nat.mul_mod_left _ _)

/-! ## What the fragments are -/

/-- The places of the length, of the fragment field and of the checksum. -/
def FragmentPlace (k : ℕ) : Prop := 2 ≤ k ∧ k < 4 ∨ 6 ≤ k ∧ k < 8 ∨ 10 ≤ k ∧ k < 12

/-- A fragment whose header is complete. -/
structure Finished (ipHeaderLength : ℕ) (fragment : Bytes) (fragmentField : ℕ) (out : Bytes) :
    Prop where
  same : SameExcept FragmentPlace out fragment
  length_eq : be16 (memory out) 2 = fragment.length
  field_eq : be16 (memory out) 6 = fragmentField
  checksum : foldCarries (wordSum (memory out) 0 ((ipHeaderLength + 1) / 2)) = 65535

theorem finishHeader_finished {ipHeaderLength fragmentField : ℕ} {fragment : Bytes}
    (hheader : 20 ≤ ipHeaderLength) (hle : ipHeaderLength ≤ fragment.length)
    (hlength : fragment.length < 65536) (hfield : fragmentField < 65536) :
    Finished ipHeaderLength fragment fragmentField
      (finishHeader ipHeaderLength fragment fragmentField) := by
  rw [finishHeader]
  generalize hs₁ : splice fragment 2 (put16 fragment.length) = s₁
  have hroom₁ : 20 ≤ fragment.length := hheader.trans hle
  have h₁ : SameExcept (fun k => 2 ≤ k ∧ k < 4) s₁ fragment :=
    hs₁ ▸ SameExcept.of_splice_put16 (by omega)
  have hread₁ : be16 (memory s₁) 2 = fragment.length :=
    hs₁ ▸ be16_splice_put16 hlength (by omega)
  generalize hs₂ : splice s₁ 6 (put16 fragmentField) = s₂
  have hroom₂ : 20 ≤ s₁.length := h₁.length_eq ▸ hroom₁
  have h₂ : SameExcept (fun k => 6 ≤ k ∧ k < 8) s₂ s₁ :=
    hs₂ ▸ SameExcept.of_splice_put16 (by omega)
  have hread₂ : be16 (memory s₂) 6 = fragmentField :=
    hs₂ ▸ be16_splice_put16 hfield (by omega)
  generalize hs₃ : splice s₂ 10 (put16 0) = s₃
  have hroom₃ : 20 ≤ s₂.length := h₂.length_eq ▸ hroom₂
  have h₃ : SameExcept (fun k => 10 ≤ k ∧ k < 12) s₃ s₂ :=
    hs₃ ▸ SameExcept.of_splice_put16 (by omega)
  have hread₃ : be16 (memory s₃) 10 = 0 := hs₃ ▸ be16_splice_put16 (by decide) (by omega)
  generalize hsum : wordSum (memory s₃) 0 ((ipHeaderLength + 1) / 2) = sum
  generalize hout : splice s₃ 10 (put16 (complement sum)) = out
  have hroom₄ : 20 ≤ s₃.length := h₃.length_eq ▸ hroom₃
  have h₄ : SameExcept (fun k => 10 ≤ k ∧ k < 12) out s₃ :=
    hout ▸ SameExcept.of_splice_put16 (by omega)
  have hread₄ : be16 (memory out) 10 = complement sum :=
    hout ▸ be16_splice_put16 (by rw [complement]; omega) (by omega)
  refine ⟨?_, ?_, ?_, ?_⟩
  · refine (h₄.mono ?_).trans ((h₃.mono ?_).trans ((h₂.mono ?_).trans (h₁.mono ?_)))
    · exact fun k hk => Or.inr (Or.inr hk)
    · exact fun k hk => Or.inr (Or.inr hk)
    · exact fun k hk => Or.inr (Or.inl hk)
    · exact fun k hk => Or.inl hk
  · rw [h₄.be16_eq (by omega) (by omega), h₃.be16_eq (by omega) (by omega),
      h₂.be16_eq (by omega) (by omega), hread₁]
  · rw [h₄.be16_eq (by omega) (by omega), h₃.be16_eq (by omega) (by omega), hread₂]
  · have hword : wordSum (memory out) 0 ((ipHeaderLength + 1) / 2) =
        wordSum (memory s₃) 0 ((ipHeaderLength + 1) / 2) + be16 (memory out) (0 + 2 * 5) :=
      wordSum_of_word (by omega) hread₃ fun j _ hne => h₄.be16_eq (by omega) (by omega)
    rw [hword, hsum, Nat.zero_add, hread₄]
    exact foldCarries_add_complement sum

/-- The two parts of an IPv4 packet that is cut after `n` bytes of its data. -/
structure Halves (packet : Bytes) (ipHeaderLength n : ℕ) (first second : Bytes) : Prop where
  header_le : 20 ≤ ipHeaderLength
  cut_mod : n % 8 = 0
  cut_lt : ipHeaderLength + n < packet.length
  length_le : packet.length ≤ 0xFFFF
  first_eq : Finished ipHeaderLength (packet.take (ipHeaderLength + n)) 0x2000 first
  second_eq : Finished ipHeaderLength
    (packet.take ipHeaderLength ++ packet.drop (ipHeaderLength + n)) (n / 8) second

/-- An unfragmented IPv4 packet within the limits. -/
structure Cuttable (packet : Bytes) (ipHeaderLength : ℕ) : Prop where
  length_le : packet.length ≤ 0xFFFF
  header_le : 20 ≤ ipHeaderLength
  version : (memory packet 0).toNat / 16 = 4
  whole : be16 (memory packet) 6 % 0x4000 = 0

/-- A packet is cut in two at the next multiple of 8, if both parts get data. -/
theorem buildIpv4Fragments_halves (packet : Bytes) (ipHeaderLength firstFragmentEnd : ℕ) {n : ℕ}
    (hn : (firstFragmentEnd - ipHeaderLength + 7) / 8 * 8 = n) :
    buildIpv4Fragments packet ipHeaderLength firstFragmentEnd = [] ∧
        ¬ (Cuttable packet ipHeaderLength ∧ 0 < n ∧ ipHeaderLength + n < packet.length) ∨
      Cuttable packet ipHeaderLength ∧ 0 < n ∧
        ∃ first second, buildIpv4Fragments packet ipHeaderLength firstFragmentEnd =
          [first, second] ∧ Halves packet ipHeaderLength n first second := by
  rw [buildIpv4Fragments]
  dsimp only
  rw [hn]
  split
  · rename_i hpacket
    refine Or.inl ⟨rfl, ?_⟩
    rintro ⟨hcuttable, hpos, hlt⟩
    have hlength := hcuttable.length_le
    have hheader := hcuttable.header_le
    have hversion := hcuttable.version
    omega
  rename_i hpacket
  split
  · rename_i hfragment
    exact Or.inl ⟨rfl, fun h => hfragment h.1.whole⟩
  rename_i hfragment
  split
  · rename_i hcut
    refine Or.inl ⟨rfl, ?_⟩
    rintro ⟨-, hpos, hlt⟩
    omega
  rename_i hcut
  have hfirst : (packet.take (ipHeaderLength + n)).length = ipHeaderLength + n := by
    rw [List.length_take]
    omega
  have hsecond : (packet.take ipHeaderLength ++ packet.drop (ipHeaderLength + n)).length =
      packet.length - n := by
    rw [List.length_append, List.length_take, List.length_drop]
    omega
  refine Or.inr ⟨⟨by omega, by omega, by omega, not_not.1 hfragment⟩, by omega, _, _, rfl,
    by omega, by omega, by omega, by omega, ?_, ?_⟩
  · exact finishHeader_finished (by omega) (by omega) (by omega) (by decide)
  · exact finishHeader_finished (by omega) (by omega) (by omega) (by omega)

/-- A packet is not cut, or cut in two where the caller said. -/
theorem buildIpv4Fragments_cases (packet : Bytes) (ipHeaderLength : ℕ) {n : ℕ} (hn : n % 8 = 0) :
    buildIpv4Fragments packet ipHeaderLength (ipHeaderLength + n) = [] ∨
      ∃ first second, buildIpv4Fragments packet ipHeaderLength (ipHeaderLength + n) =
        [first, second] ∧ Halves packet ipHeaderLength n first second := by
  have hround : (ipHeaderLength + n - ipHeaderLength + 7) / 8 * 8 = n := by omega
  rcases buildIpv4Fragments_halves packet ipHeaderLength (ipHeaderLength + n) hround with
    ⟨hnone, -⟩ | ⟨-, -, hhalves⟩
  · exact Or.inl hnone
  · exact Or.inr hhalves

end Packet

end SplitHello
