import SplitHello.Packet.PolicyRegistry
import SplitHello.Packet.Wire

/-!
# The first TLS packet of a connection

A packet that starts a TLS record on its way to the target is looked up in the policies.
What is queued for it is the packet itself, possibly behind a decoy, or instead of it two
segments or two fragments. `Sent` says when the other end still gets the packet's payload
and when a report about it is honest.
-/

namespace SplitHello

namespace Packet

open ByteString InternetChecksum Pieces Transparent

/-! ## The batch -/

/-- The packets queued for re-injection, one after the other, with their lengths. -/
structure PacketBatch where
  bytes : Bytes := []
  addresses : List DivertAddress := []
  lengths : List ℕ := []
  deriving DecidableEq, Repr

namespace PacketBatch

def count (batch : PacketBatch) : ℕ := batch.addresses.length

def append (batch : PacketBatch) (packet : Bytes) (address : DivertAddress) : PacketBatch where
  bytes := batch.bytes ++ packet
  addresses := batch.addresses ++ [address]
  lengths := batch.lengths ++ [packet.length]

def rollback (batch : PacketBatch) (packets byteCount : ℕ) : PacketBatch where
  bytes := batch.bytes.take byteCount
  addresses := batch.addresses.take packets
  lengths := batch.lengths.take packets

/-- The batch that holds these packets. -/
def ofPackets (packets : List (Bytes × DivertAddress)) : PacketBatch :=
  packets.foldl (fun batch p => batch.append p.1 p.2) {}

theorem ofPackets_concat (packets : List (Bytes × DivertAddress)) (p : Bytes × DivertAddress) :
    ofPackets (packets ++ [p]) = (ofPackets packets).append p.1 p.2 := by
  simp [ofPackets]

theorem ofPackets_eq (packets : List (Bytes × DivertAddress)) :
    ofPackets packets =
      ⟨(packets.map Prod.fst).flatten, packets.map Prod.snd,
        packets.map fun p => p.1.length⟩ := by
  induction packets using List.reverseRecOn with
  | nil => rfl
  | append_singleton packets p ih =>
      rw [ofPackets_concat, ih, append]
      simp

theorem foldl_append (earlier packets : List (Bytes × DivertAddress)) :
    packets.foldl (fun batch p => batch.append p.1 p.2) (ofPackets earlier) =
      ofPackets (earlier ++ packets) := by
  rw [ofPackets, ofPackets, List.foldl_append]

/-- Going back to where a batch was. -/
theorem rollback_ofPackets (packets more : List (Bytes × DivertAddress)) :
    (ofPackets (packets ++ more)).rollback (ofPackets packets).count
      (ofPackets packets).bytes.length = ofPackets packets := by
  rw [ofPackets_eq, ofPackets_eq, rollback, count]
  simp

theorem ofPackets_injective {a b : List (Bytes × DivertAddress)}
    (h : ofPackets a = ofPackets b) : a = b := by
  rw [ofPackets_eq, ofPackets_eq, PacketBatch.mk.injEq] at h
  obtain ⟨hbytes, haddresses, hlengths⟩ := h
  induction a generalizing b with
  | nil =>
      cases b with
      | nil => rfl
      | cons p b => cases haddresses
  | cons p a ih =>
      cases b with
      | nil => cases haddresses
      | cons q b =>
          simp only [List.map_cons, List.flatten_cons, List.cons.injEq]
            at hbytes haddresses hlengths
          obtain ⟨hfirst, hrest⟩ := List.append_inj hbytes hlengths.1
          rw [ih hrest haddresses.2 hlengths.2, Prod.ext hfirst haddresses.1]

end PacketBatch

/-! ## Queueing -/

/-- What is queued for a packet, and whether the packet policy counts as applied. -/
structure Outcome where
  batch : PacketBatch
  applied : Bool
  deriving DecidableEq, Repr

section

variable (W : WinDivert) (policy : Policy) (batch : PacketBatch) (packet : Bytes) (l : Layout)
  (address : DivertAddress)

def queueFragments : Outcome :=
  let payload := packet.drop l.headerEnd
  let headerLength := ipHeaderLength packet
  let transportHeaderLength := l.headerEnd - headerLength
  let boundary := ipv4FragmentBoundary transportHeaderLength policy payload.length
  let fragments :=
    if boundary = 0 then [] else buildIpv4Fragments packet headerLength (headerLength + boundary)
  if fragments.length = 2 then
    ⟨fragments.foldl (fun batch fragment => batch.append fragment address) batch, true⟩
  else ⟨batch.append packet address, false⟩

def segmentVariant (segment : Segment) : Option Bytes :=
  buildTcpVariant W packet l.headerEnd segment.payload segment.sequenceOffset address 0 false

def appendVariant (batch : PacketBatch) (segment : Segment) : PacketBatch :=
  match segmentVariant W packet l address segment with
  | some variant => batch.append variant address
  | none => batch

/-- The policy the segments are built by; over IPv6 there is nothing to fragment. -/
def segmentPolicy : Policy :=
  if policy.mode = .ipFragment then { policy with mode := .reverseOrder } else policy

def queueSegments : Outcome :=
  let payload := packet.drop l.headerEnd
  let segments := buildSegments payload (segmentPolicy policy)
  let queued := segments.foldl (appendVariant W packet l address) batch
  let packetAppended : Bool :=
    !segments.isEmpty && queued.count - batch.count = segments.length
  if packetAppended then
    ⟨queued, splitsSni policy (segmentSplit policy payload.length)⟩
  else ⟨(queued.rollback batch.count batch.bytes.length).append packet address, false⟩

def fakeVariant : Option Bytes :=
  let badChecksum : Bool := policy.mode = .fakeBadChecksum
  let sequenceOffset := if policy.mode = .fakeBadSequence then policy.fakeSequenceDelta else 0
  let ttl := if policy.mode = .fakeAutoTtl then policy.fakeTtl else 0
  buildTcpVariant W packet l.headerEnd (buildFakeClientHello policy.coverSni) sequenceOffset
    address ttl badChecksum

def queueDecoy : Outcome :=
  let badChecksum : Bool := policy.mode = .fakeBadChecksum
  match fakeVariant W policy packet l address with
  | some fakePacket =>
      -- A wrong checksum survives only if the driver is told that it is valid.
      let fakeAddress :=
        if badChecksum then { address with ipChecksum := true, tcpChecksum := true } else address
      ⟨(batch.append fakePacket fakeAddress).append packet address, true⟩
  | none => ⟨batch.append packet address, false⟩

/-- The modes that cut the packet. -/
def Mode.splits : Mode → Bool
  | .reverseOrder | .sequenceOverlap | .ipFragment => true
  | _ => false

def queueByPolicy : Outcome :=
  if policy.mode = .ipFragment ∧ l.ipv6 = false then queueFragments policy batch packet l address
  else if policy.mode.splits then queueSegments W policy batch packet l address
  else queueDecoy W policy batch packet l address

end

def looksLikeTlsRecord (data : Bytes) : Bool :=
  match data with
  | [] => false
  | [type] => type = 0x16
  | type :: version :: _ => type = 0x16 && version = 0x03

/-- The address a packet goes to. -/
def targetAddress (packet : Bytes) (l : Layout) : Bytes :=
  addressFromBytes
    (if l.ipv6 then slice (memory packet) 24 16 else slice (memory packet) 16 4) l.ipv6

/-- The registry after a packet and what was queued for it. -/
structure Forwarded where
  registry : PolicyRegistry
  outcome : Outcome

/-- A packet on its way to the target, once it has been rewritten. -/
def forwardToTarget (W : WinDivert) (registry : PolicyRegistry) (batch : PacketBatch)
    (packet : Bytes) (l : Layout) (address : DivertAddress) (now later : ℕ) : Forwarded :=
  let payload := packet.drop l.headerEnd
  if 2 ≤ payload.length ∧ looksLikeTlsRecord payload = true then
    let target := targetAddress packet l
    let sourcePort := be16 (memory packet) l.tcp
    let sequence := be32 (memory packet) (l.tcp + 4)
    let taken := registry.take target sourcePort (some sequence) now
    match taken.2 with
    | none => ⟨taken.1, ⟨batch.append packet address, false⟩⟩
    | some policy =>
        let outcome := queueByPolicy W policy batch packet l address
        ⟨if outcome.applied then taken.1.noteApplied target sourcePort later else taken.1, outcome⟩
  else ⟨registry, ⟨batch.append packet address, false⟩⟩

/-! ## What has to be right -/

section

variable (W : WinDivert) (policy : Policy) (packet : Bytes) (l : Layout) (address : DivertAddress)

/-- The host name is not spread over the packets, although it is known where it lies. -/
def Unsplit (pieces : List (Piece UInt8)) (shift : ℕ) : Prop :=
  policy.sniBegin < policy.sniEnd ∧
    ∃ piece ∈ pieces, Holds piece shift (packet.drop l.headerEnd) policy.sniBegin policy.sniEnd

/-- A decoy: the packet with the fake hello in the place of its payload, which the target does
not take because its sequence number is another one, its TCP checksum is wrong or its time to
live ends on the way. -/
structure Decoy (fake : Bytes × DivertAddress) : Prop where
  variant : IsVariant W packet l address (if policy.mode = .fakeAutoTtl then policy.fakeTtl else 0)
    (policy.mode = .fakeBadChecksum) (buildFakeClientHello policy.coverSni)
    (if policy.mode = .fakeBadSequence then policy.fakeSequenceDelta else 0) fake.1
  -- A checksum that is said to be valid is left as it is.
  address_eq : fake.2 = if policy.mode = .fakeBadChecksum then
    { address with ipChecksum := true, tcpChecksum := true } else address

/-- What lies behind a cut, with cover bytes in front of it, and then what lies before it. -/
def cutPieces (payload : Bytes) (cut : ℕ) (cover : Bytes) : List (Piece UInt8) :=
  [⟨cut - cover.length, cover ++ payload.drop cut⟩, ⟨0, payload.take cut⟩]

/-- The two segments of the packet's connection into which its payload is cut. -/
structure Segments (cut : ℕ) (cover first second : Bytes) : Prop where
  cut_pos : 0 < cut
  cut_lt : cut < (packet.drop l.headerEnd).length
  cover_le : cover.length ≤ cut
  first_eq : IsVariant W packet l address 0 false (cover ++ (packet.drop l.headerEnd).drop cut)
    (cut - cover.length : ℕ) first
  second_eq : IsVariant W packet l address 0 false ((packet.drop l.headerEnd).take cut) 0 second
  /-- So the target sees them. -/
  pieces_eq : [first, second].mapM (tcpPiece W (be32 (memory packet) (l.tcp + 4))) =
    some (cutPieces (packet.drop l.headerEnd) cut cover)

/-- What may be queued for a packet, `applied` saying whether it is reported: the packet itself,
once, and before it at most a decoy, which is left out only if it could not be built; or, in its
place, its two segments or its two fragments, if they amount to it. -/
inductive Sent (applied : Bool) : List (Bytes × DivertAddress) → Prop
  | plain (hreport : applied = false)
      (hrefused : policy.mode.splits = false → fakeVariant W policy packet l address = none) :
      Sent applied [(packet, address)]
  | decoy {fake : Bytes × DivertAddress} (hmode : policy.mode.splits = false)
      (hbuilt : fakeVariant W policy packet l address = some fake.1)
      (hfake : Decoy W policy packet l address fake) : Sent applied [fake, (packet, address)]
  | segments {cut : ℕ} {cover first second : Bytes} (hmode : policy.mode.splits = true)
      (hsegments : Segments W packet l address cut cover first second)
      (hstream : reassemble (cutPieces (packet.drop l.headerEnd) cut cover) =
        packet.drop l.headerEnd)
      (hreport : applied = true →
        ¬ Unsplit policy packet l (cutPieces (packet.drop l.headerEnd) cut cover) 0) :
      Sent applied [(first, address), (second, address)]
  | fragments {n : ℕ} {first second : Bytes} (hmode : policy.mode = .ipFragment)
      (hip : l.ipv6 = false) (hpos : 0 < n)
      (hhalves : Halves packet (ipHeaderLength packet) n first second)
      (hdata : ipReassembled [first, second] = some (packet.drop (ipHeaderLength packet)))
      (hdatagram : datagram first = datagram packet ∧ datagram second = datagram packet)
      (hreport : applied = true → ¬ Unsplit policy packet l ([first, second].map ipPiece)
        (l.headerEnd - ipHeaderLength packet)) :
      Sent applied [(first, address), (second, address)]

/-- The driver refuses one of the segments. -/
def Refused : Prop :=
  ∃ segment ∈ buildSegments (packet.drop l.headerEnd) (segmentPolicy policy),
    segmentVariant W packet l address segment = none

/-- The packet is sent without loss and reported honestly, and a variant that could not be
built leaves nothing behind. -/
structure Sound (earlier : List (Bytes × DivertAddress)) (outcome : Outcome) : Prop where
  sent : ∃ queued, outcome.batch = PacketBatch.ofPackets (earlier ++ queued) ∧
    Sent W policy packet l address outcome.applied queued
  rolledBack : ¬ (policy.mode = .ipFragment ∧ l.ipv6 = false) →
    Refused W policy packet l address →
      outcome = ⟨(PacketBatch.ofPackets earlier).append packet address, false⟩

/-- The cover bytes reach back to the start of the packet and are not what stands there, so
the first segment is taken for the packet. -/
structure CoverInOrder (payload : Bytes) : Prop where
  mode_eq : policy.mode = .sequenceOverlap
  reaches : segmentSplit policy payload.length ≤ max 1 policy.overlapBytes
  ne : lead policy payload.length ≠ payload.take (segmentSplit policy payload.length)

/-- The cover bytes happen to be the part of the host name in whose place they stand. -/
structure CoverMatches (payload : Bytes) : Prop where
  mode_eq : policy.mode = .sequenceOverlap
  begin_lt : policy.sniBegin < segmentSplit policy payload.length
  lt_end : segmentSplit policy payload.length < policy.sniEnd
  reaches : segmentSplit policy payload.length ≤
    policy.sniBegin + (lead policy payload.length).length
  eq : (lead policy payload.length).drop (policy.sniBegin +
      (lead policy payload.length).length - segmentSplit policy payload.length) =
    (payload.take (segmentSplit policy payload.length)).drop policy.sniBegin

end

/-! ## Segments -/

section

variable {W : WinDivert} {policy : Policy} {packet : Bytes} {l : Layout} {address : DivertAddress}
  {earlier : List (Bytes × DivertAddress)}

theorem foldl_appendVariant (segments : List Segment) :
    segments.foldl (appendVariant W packet l address) (PacketBatch.ofPackets earlier) =
      PacketBatch.ofPackets (earlier ++
        (segments.filterMap (segmentVariant W packet l address)).map fun v => (v, address)) := by
  induction segments generalizing earlier with
  | nil => simp
  | cons segment segments ih =>
      rw [List.foldl_cons, appendVariant]
      cases hvariant : segmentVariant W packet l address segment with
      | none => simp [hvariant, ih]
      | some variant =>
          have hfirst := PacketBatch.ofPackets_concat earlier (variant, address)
          dsimp only at hfirst ⊢
          rw [← hfirst, ih]
          simp [hvariant]

theorem count_ofPackets (packets : List (Bytes × DivertAddress)) :
    (PacketBatch.ofPackets packets).count = packets.length := by
  rw [PacketBatch.ofPackets_eq, PacketBatch.count, List.length_map]

/-- A segment that is refused leaves everything as if there had been none. -/
theorem queueSegments_of_refused (earlier : List (Bytes × DivertAddress))
    (h : Refused W policy packet l address) :
    queueSegments W policy (PacketBatch.ofPackets earlier) packet l address =
      ⟨(PacketBatch.ofPackets earlier).append packet address, false⟩ := by
  obtain ⟨segment, hsegment, hnone⟩ := h
  have hfewer := List.length_filterMap_lt_length_iff_exists.2 ⟨segment, hsegment, hnone⟩
  rw [queueSegments, foldl_appendVariant, count_ofPackets, count_ofPackets, if_neg,
    ← count_ofPackets, PacketBatch.rollback_ofPackets]
  rw [Bool.and_eq_true, decide_eq_true_eq, List.length_append, List.length_map]
  omega

theorem queueSegments_of_built {s₁ s₂ : Segment} {v₁ v₂ : Bytes}
    (hsegments : buildSegments (packet.drop l.headerEnd) (segmentPolicy policy) = [s₁, s₂])
    (h₁ : segmentVariant W packet l address s₁ = some v₁)
    (h₂ : segmentVariant W packet l address s₂ = some v₂) :
    queueSegments W policy (PacketBatch.ofPackets earlier) packet l address =
      ⟨PacketBatch.ofPackets (earlier ++ [(v₁, address), (v₂, address)]),
        splitsSni policy (segmentSplit policy (packet.drop l.headerEnd).length)⟩ := by
  rw [queueSegments, foldl_appendVariant, count_ofPackets, count_ofPackets, hsegments]
  simp [h₁, h₂]

theorem segmentPolicy_same (policy : Policy) (length : ℕ) :
    segmentSplit (segmentPolicy policy) length = segmentSplit policy length ∧
      lead (segmentPolicy policy) length = lead policy length := by
  rw [segmentPolicy]
  split
  · rename_i hmode
    refine ⟨rfl, ?_⟩
    rw [lead, lead, if_neg (by simp), if_neg (by simp [hmode])]
  · exact ⟨rfl, rfl⟩

theorem buildSegments_of_splits (hmode : policy.mode.splits = true) {payload : Bytes}
    (hlength : 2 ≤ payload.length) :
    buildSegments payload (segmentPolicy policy) =
      [⟨(segmentSplit policy payload.length - (lead policy payload.length).length : ℕ),
          lead policy payload.length ++ payload.drop (segmentSplit policy payload.length)⟩,
        ⟨0, payload.take (segmentSplit policy payload.length)⟩] := by
  obtain ⟨hsplit, hlead⟩ := segmentPolicy_same policy payload.length
  have hsegments : (segmentPolicy policy).mode = .reverseOrder ∨
      (segmentPolicy policy).mode = .sequenceOverlap := by
    rw [segmentPolicy]
    split
    · exact Or.inl rfl
    · cases hpolicy : policy.mode <;> simp_all [Mode.splits]
  rw [buildSegments_eq hlength hsegments, hsplit, hlead]

/-- The two segments as the receiver sees them. -/
def segmentPieces (policy : Policy) (payload : Bytes) : List (Piece UInt8) :=
  cutPieces payload (segmentSplit policy payload.length) (lead policy payload.length)

/-- In other words: what leads the first segment fills the whole first part and is not it. -/
theorem coverInOrder_iff {policy : Policy} {payload : Bytes} (hlength : 2 ≤ payload.length) :
    CoverInOrder policy payload ↔
      (lead policy payload.length).length = segmentSplit policy payload.length ∧
        lead policy payload.length ≠ payload.take (segmentSplit policy payload.length) := by
  constructor
  · rintro ⟨hmode, hreaches, hne⟩
    exact ⟨(length_lead_eq_iff hmode hlength).2 hreaches, hne⟩
  · rintro ⟨hall, hne⟩
    have hmode : policy.mode = .sequenceOverlap := by
      by_contra hother
      have hpos := (segmentSplit_bounds policy hlength).1
      rw [← hall, lead, if_neg hother] at hpos
      exact absurd hpos (Nat.lt_irrefl 0)
    exact ⟨hmode, (length_lead_eq_iff hmode hlength).1 hall, hne⟩

/-- They make up the payload unless cover bytes come in its place. -/
theorem reassemble_segments (policy : Policy) {payload : Bytes} (hlength : 2 ≤ payload.length) :
    reassemble (segmentPieces policy payload) = payload ↔ ¬ CoverInOrder policy payload := by
  rw [coverInOrder_iff hlength, segmentPieces, cutPieces]
  have hle := length_lead_le policy hlength
  obtain ⟨hpos, hlt⟩ := segmentSplit_bounds policy hlength
  generalize segmentSplit policy payload.length = split at hle hpos hlt ⊢
  generalize lead policy payload.length = cover at hle ⊢
  have htake : (payload.take split).length = split := by
    rw [List.length_take]
    omega
  by_cases hwhole : cover.length = split
  · rw [hwhole, Nat.sub_self, reassemble_again (by rw [htake, List.length_append]; omega)]
    constructor
    · rintro heq ⟨-, hne⟩
      refine hne ?_
      have hfirst := congrArg (List.take split) heq
      rwa [List.take_left' hwhole] at hfirst
    · intro hnot
      have hcover : cover = payload.take split := by
        by_contra hne
        exact hnot ⟨rfl, hne⟩
      rw [hcover, List.take_append_drop]
  · have hrest : (payload.take split).length - (split - cover.length) = cover.length := by
      rw [htake]
      omega
    rw [reassemble_early (by omega) (by rw [htake]; omega), hrest, List.drop_left,
      List.take_append_drop]
    simp [hwhole]

/-- The packet itself, and no report. -/
theorem sent_plain (outcome : Outcome)
    (h : outcome = ⟨(PacketBatch.ofPackets earlier).append packet address, false⟩)
    (hrefused : policy.mode.splits = false → fakeVariant W policy packet l address = none) :
    ∃ queued, outcome.batch = PacketBatch.ofPackets (earlier ++ queued) ∧
      Sent W policy packet l address outcome.applied queued := by
  rw [h]
  exact ⟨[(packet, address)], (PacketBatch.ofPackets_concat earlier (packet, address)).symm,
    .plain rfl hrefused⟩

/-! ## Fragments and decoys -/

theorem queueFragments_sent (hparse : W.parse packet = some l)
    (hmode : policy.mode = .ipFragment) (hip : l.ipv6 = false) :
    ∃ queued, (queueFragments policy (PacketBatch.ofPackets earlier) packet l address).batch =
        PacketBatch.ofPackets (earlier ++ queued) ∧
      Sent W policy packet l address
        (queueFragments policy (PacketBatch.ofPackets earlier) packet l address).applied
        queued := by
  have hfits := W.fits hparse
  have hversion : (memory packet 0).toNat / 16 = 4 := by
    rw [hfits.version, hip]
    rfl
  have hheader : ipHeaderLength packet ≤ l.headerEnd := by
    have htcp : l.tcp = ipHeaderLength packet := (hfits.ipv4_eq hip).1
    have hle := hfits.tcp_le
    omega
  rw [queueFragments]
  have hsplits : policy.mode.splits = false → fakeVariant W policy packet l address = none := by
    rw [hmode]
    nofun
  generalize hshift : l.headerEnd - ipHeaderLength packet = shift
  by_cases hzero : ipv4FragmentBoundary shift policy (packet.drop l.headerEnd).length = 0
  · refine sent_plain _ ?_ hsplits
    rw [if_pos hzero, if_neg (by simp)]
  · obtain ⟨cut, hboundary, hmod, hpos, hlt, hsni⟩ := ipv4FragmentBoundary_spec hzero
    rw [if_neg hzero, hboundary]
    rcases buildIpv4Fragments_cases packet (ipHeaderLength packet) hmod with
      hnone | ⟨first, second, hfragments, hhalves⟩
    · refine sent_plain _ ?_ hsplits
      rw [hnone, if_neg (by simp)]
    · have htwo : [first, second].length = 2 := rfl
      rw [hfragments, if_pos htwo]
      obtain ⟨hpiece₁, hpiece₂⟩ := hhalves.ipPiece_eq hversion
      refine ⟨[(first, address), (second, address)], ?_, ?_⟩
      · simp [PacketBatch.ofPackets]
      · refine .fragments hmode hip (Nat.add_pos_right _ hpos) hhalves
          (hhalves.ipReassembled_eq hversion) hhalves.datagram_eq ?_
        · rintro - ⟨hknown, piece, hpiece, hholds⟩
          obtain ⟨hbegin, hend⟩ := hsni hknown
          rw [hshift] at hholds
          rw [List.map_cons, List.map_singleton, hpiece₁, hpiece₂] at hpiece
          rcases List.mem_pair.1 hpiece with rfl | rfl
          · refine not_holds_take hbegin hend hlt shift ?_ hholds
            rw [List.length_drop] at hlt
            rw [List.length_take, List.length_drop]
            omega
          · exact not_holds_drop hbegin hend hlt shift hholds

theorem queueDecoy_sent (hparse : W.parse packet = some l) (hmode : policy.mode.splits = false) :
    ∃ queued, (queueDecoy W policy (PacketBatch.ofPackets earlier) packet l address).batch =
        PacketBatch.ofPackets (earlier ++ queued) ∧
      Sent W policy packet l address
        (queueDecoy W policy (PacketBatch.ofPackets earlier) packet l address).applied queued := by
  rw [queueDecoy]
  dsimp only
  split
  · rename_i fake hfake
    have hdecoy : Decoy W policy packet l address (fake, if policy.mode = .fakeBadChecksum then
        { address with ipChecksum := true, tcpChecksum := true } else address) :=
      ⟨buildTcpVariant_isVariant hparse hfake, rfl⟩
    refine ⟨[(fake, _), (packet, address)], ?_, .decoy hmode hfake hdecoy⟩
    simp [PacketBatch.ofPackets]
  · exact sent_plain _ rfl fun _ => ‹_›

/-! ## The two segments -/

section

variable (hparse : W.parse packet = some l) (hmode : policy.mode.splits = true)
  (hlength : 2 ≤ (packet.drop l.headerEnd).length)

include hparse hmode hlength

/-- Two segments that could be built. -/
theorem queueSegments_built (earlier : List (Bytes × DivertAddress))
    (hbuilt : ¬ Refused W policy packet l address) :
    ∃ v₁ v₂,
      queueSegments W policy (PacketBatch.ofPackets earlier) packet l address =
        ⟨PacketBatch.ofPackets (earlier ++ [(v₁, address), (v₂, address)]),
          splitsSni policy (segmentSplit policy (packet.drop l.headerEnd).length)⟩ ∧
      Segments W packet l address (segmentSplit policy (packet.drop l.headerEnd).length)
        (lead policy (packet.drop l.headerEnd).length) v₁ v₂ := by
  have hsegments := buildSegments_of_splits hmode hlength
  obtain ⟨hpos, hlt⟩ := segmentSplit_bounds policy hlength
  have hsmall : segmentSplit policy (packet.drop l.headerEnd).length < 4294967296 := by
    have hmax := (W.fits hparse).length_le
    rw [mtuMax] at hmax
    rw [List.length_drop] at hlt ⊢
    omega
  have hsome (segment : Segment)
      (hmem : segment ∈ buildSegments (packet.drop l.headerEnd) (segmentPolicy policy)) :
      ∃ v, segmentVariant W packet l address segment = some v :=
    Option.ne_none_iff_exists'.1 fun hnone => hbuilt ⟨segment, hmem, hnone⟩
  obtain ⟨v₁, hv₁⟩ := hsome _ (by rw [hsegments]; exact List.mem_cons_self)
  obtain ⟨v₂, hv₂⟩ := hsome _ (by rw [hsegments]; exact List.mem_cons_of_mem _ List.mem_cons_self)
  have hvariant₁ := buildTcpVariant_isVariant hparse hv₁
  have hvariant₂ := buildTcpVariant_isVariant hparse hv₂
  have hpiece₁ := hvariant₁.tcpPiece_eq (by omega)
  have hpiece₂ : tcpPiece W (be32 (memory packet) (l.tcp + 4)) v₂ =
      some ⟨0, (packet.drop l.headerEnd).take
        (segmentSplit policy (packet.drop l.headerEnd).length)⟩ :=
    IsVariant.tcpPiece_eq hvariant₂ (by decide)
  refine ⟨v₁, v₂, queueSegments_of_built hsegments hv₁ hv₂, hpos, hlt,
    length_lead_le policy hlength, hvariant₁, hvariant₂, ?_⟩
  simp [cutPieces, hpiece₁, hpiece₂]

omit hparse hlength in
/-- Two segments can only stand for the packet as segments. -/
theorem Sent.of_pair {v₁ v₂ : Bytes} {applied : Bool}
    (hfragment : ¬ (policy.mode = .ipFragment ∧ l.ipv6 = false))
    (hsegments : Segments W packet l address
      (segmentSplit policy (packet.drop l.headerEnd).length)
      (lead policy (packet.drop l.headerEnd).length) v₁ v₂)
    (h : Sent W policy packet l address applied [(v₁, address), (v₂, address)]) :
    reassemble (segmentPieces policy (packet.drop l.headerEnd)) = packet.drop l.headerEnd ∧
      (applied = true →
        ¬ Unsplit policy packet l (segmentPieces policy (packet.drop l.headerEnd)) 0) := by
  generalize hqueued : [(v₁, address), (v₂, address)] = queued at h
  cases h with
  | plain hreport => cases hqueued
  | decoy hnot hbuilt hfake =>
      rw [hmode] at hnot
      cases hnot
  | segments hsplits hsegments' hstream hreport =>
      obtain ⟨⟨rfl, -⟩, ⟨rfl, -⟩, -⟩ := by simpa using hqueued
      have hpieces := hsegments'.pieces_eq
      rw [hsegments.pieces_eq, Option.some.injEq] at hpieces
      rw [segmentPieces, hpieces]
      exact ⟨hstream, hreport⟩
  | fragments hmode' hip hpos hhalves hdata hdatagram hreport =>
      exact absurd ⟨hmode', hip⟩ hfragment

omit hparse hmode in
/-- A cut inside the host name splits it, unless the cover bytes fit. -/
theorem unsplit_segments_iff
    (hbegin : policy.sniBegin < segmentSplit policy (packet.drop l.headerEnd).length)
    (hend : segmentSplit policy (packet.drop l.headerEnd).length < policy.sniEnd) :
    Unsplit policy packet l (segmentPieces policy (packet.drop l.headerEnd)) 0 ↔
      CoverMatches policy (packet.drop l.headerEnd) := by
  have hle := length_lead_le policy hlength
  have hlt := (segmentSplit_bounds policy hlength).2
  have hcover := holds_cover_iff hle hlt hbegin hend
  constructor
  · rintro ⟨hknown, piece, hpiece, hholds⟩
    rcases List.mem_pair.1 hpiece with rfl | rfl
    · obtain ⟨hreaches, heq⟩ := hcover.1 hholds
      refine ⟨?_, hbegin, hend, hreaches, heq⟩
      by_contra hother
      rw [lead, if_neg hother, List.length_nil] at hreaches
      omega
    · refine absurd hholds (not_holds_take hbegin hend hlt 0 ?_)
      rw [List.length_take]
      omega
  · intro hmatches
    exact ⟨hbegin.trans hend, _, List.mem_cons_self,
      hcover.2 ⟨hmatches.reaches, hmatches.eq⟩⟩

/-- Segments that could be built are sound unless the cover bytes are in the way. -/
theorem queueSegments_sent_iff (earlier : List (Bytes × DivertAddress))
    (hfragment : ¬ (policy.mode = .ipFragment ∧ l.ipv6 = false))
    (hbuilt : ¬ Refused W policy packet l address) :
    (∃ queued,
        (queueSegments W policy (PacketBatch.ofPackets earlier) packet l address).batch =
          PacketBatch.ofPackets (earlier ++ queued) ∧
        Sent W policy packet l address
          (queueSegments W policy (PacketBatch.ofPackets earlier) packet l address).applied
          queued) ↔
      ¬ (CoverInOrder policy (packet.drop l.headerEnd) ∨
        CoverMatches policy (packet.drop l.headerEnd)) := by
  obtain ⟨v₁, v₂, hqueued, hsegments⟩ := queueSegments_built hparse hmode hlength earlier hbuilt
  have hstream := reassemble_segments policy hlength
  rw [hqueued]
  constructor
  · rintro ⟨queued, hbatch, hsent⟩ hbad
    obtain rfl := List.append_cancel_left (PacketBatch.ofPackets_injective hbatch)
    obtain ⟨hwhole, hreport⟩ := Sent.of_pair hmode hfragment hsegments hsent
    rcases hbad with hinorder | hmatches
    · exact hstream.1 hwhole hinorder
    · have hknown := hmatches.begin_lt.trans hmatches.lt_end
      exact hreport ((splitsSni_iff hknown _).2 ⟨hmatches.begin_lt, hmatches.lt_end⟩)
        ((unsplit_segments_iff hlength hmatches.begin_lt hmatches.lt_end).2 hmatches)
  · intro hgood
    refine ⟨[(v₁, address), (v₂, address)], rfl, .segments hmode hsegments (hstream.2 ?_) ?_⟩
    · exact fun hinorder => hgood (Or.inl hinorder)
    · intro happlied hunsplit
      obtain ⟨hbegin, hend⟩ := (splitsSni_iff hunsplit.1 _).1 happlied
      exact hgood (Or.inr ((unsplit_segments_iff hlength hbegin hend).1 hunsplit))

end

/-! ## Every policy -/

/-- Cover bytes are a matter of one mode. -/
theorem not_cover_of_mode {policy : Policy} (hmode : policy.mode ≠ .sequenceOverlap)
    (payload : Bytes) :
    ¬ (CoverInOrder policy payload ∨ CoverMatches policy payload) := by
  rintro (h | h)
  · exact hmode h.mode_eq
  · exact hmode h.mode_eq

theorem not_refused_of_mode (hmode : policy.mode.splits = false) :
    ¬ Refused W policy packet l address := by
  rintro ⟨segment, hsegment, -⟩
  have hnone : buildSegments (packet.drop l.headerEnd) (segmentPolicy policy) = [] := by
    cases hpolicy : policy.mode <;> simp_all [Mode.splits, segmentPolicy, buildSegments]
  rw [hnone] at hsegment
  cases hsegment

/-- A policy is carried out soundly unless both segments of an overlap are built and the
cover bytes come in the place of the packet's first ones, or match the host name. -/
theorem queueByPolicy_sound_iff (hparse : W.parse packet = some l)
    (hlength : 2 ≤ (packet.drop l.headerEnd).length) :
    Sound W policy packet l address earlier
        (queueByPolicy W policy (PacketBatch.ofPackets earlier) packet l address) ↔
      Refused W policy packet l address ∨
        ¬ (CoverInOrder policy (packet.drop l.headerEnd) ∨
          CoverMatches policy (packet.drop l.headerEnd)) := by
  rw [queueByPolicy]
  split
  · rename_i hfragment
    have hother : policy.mode ≠ .sequenceOverlap := by
      rw [hfragment.1]
      decide
    refine iff_of_true ⟨?_, fun hnot => absurd hfragment hnot⟩
      (Or.inr (not_cover_of_mode hother _))
    exact queueFragments_sent hparse hfragment.1 hfragment.2
  · rename_i hfragment
    split
    · rename_i hmode
      by_cases hrefused : Refused W policy packet l address
      · have hplain := queueSegments_of_refused earlier hrefused
        have hsplits : policy.mode.splits = false → fakeVariant W policy packet l address = none :=
          fun hnot => absurd (hmode.symm.trans hnot) (by decide)
        exact iff_of_true ⟨sent_plain _ hplain hsplits, fun _ _ => hplain⟩ (Or.inl hrefused)
      · have hsent := queueSegments_sent_iff hparse hmode hlength earlier hfragment hrefused
        constructor
        · intro hsound
          exact Or.inr (hsent.1 hsound.sent)
        · intro hgood
          exact ⟨hsent.2 (hgood.resolve_left hrefused), fun _ h => absurd h hrefused⟩
    · rename_i hmode
      have hmode : policy.mode.splits = false := Bool.eq_false_iff.2 hmode
      have hother : policy.mode ≠ .sequenceOverlap := by
        intro heq
        rw [heq] at hmode
        cases hmode
      refine iff_of_true ⟨queueDecoy_sent hparse hmode, fun _ h => ?_⟩
        (Or.inr (not_cover_of_mode hother _))
      exact absurd h (not_refused_of_mode hmode)

/-- The first TLS packet of a connection for which a policy has been handed out. -/
theorem firstTls_sound_iff (registry : PolicyRegistry) (earlier : List (Bytes × DivertAddress))
    (address : DivertAddress) (now later : ℕ) (hparse : W.parse packet = some l)
    (hlength : 2 ≤ (packet.drop l.headerEnd).length)
    (htls : looksLikeTlsRecord (packet.drop l.headerEnd) = true)
    (htaken : (registry.take (targetAddress packet l) (be16 (memory packet) l.tcp)
      (some (be32 (memory packet) (l.tcp + 4))) now).2 = some policy) :
    Sound W policy packet l address earlier
        (forwardToTarget W registry (PacketBatch.ofPackets earlier) packet l address now
          later).outcome ↔
      Refused W policy packet l address ∨
        ¬ (CoverInOrder policy (packet.drop l.headerEnd) ∨
          CoverMatches policy (packet.drop l.headerEnd)) := by
  have houtcome : (forwardToTarget W registry (PacketBatch.ofPackets earlier) packet l address now
      later).outcome = queueByPolicy W policy (PacketBatch.ofPackets earlier) packet l address := by
    rw [forwardToTarget, if_pos ⟨hlength, htls⟩]
    dsimp only
    rw [htaken]
  rw [houtcome]
  exact queueByPolicy_sound_iff hparse hlength

end

/-! ## A short first packet -/

/-- A driver that takes IPv4 packets without options. -/
def sampleParse (packet : Bytes) : Option Layout :=
  if 40 ≤ packet.length ∧ packet.length ≤ 65535 ∧ memory packet 0 = 0x45 ∧ memory packet 9 = 6 ∧
      be16 (memory packet) 2 = packet.length ∧ memory packet 32 = 0x50 then
    some ⟨false, 20, 40⟩
  else none

def sampleChecksums (packet : Bytes) : Bytes :=
  let packet := splice packet 10 (put16 0)
  let packet := splice packet 10 (put16 (complement (wordSum (memory packet) 0 10)))
  let packet := splice packet 36 (put16 0)
  let tcpLength := packet.length - 20
  let sum := wordSum (memory packet) 12 4 + 6 + tcpLength +
    wordSum (memory packet) 20 ((tcpLength + 1) / 2)
  splice packet 36 (put16 (complement sum))

theorem sampleParse_some {packet : Bytes} {l : Layout} (h : sampleParse packet = some l) :
    l = ⟨false, 20, 40⟩ ∧ 40 ≤ packet.length ∧ packet.length ≤ 65535 ∧
      memory packet 0 = 0x45 := by
  rw [sampleParse, Option.ite_none_right_eq_some, Option.some.injEq] at h
  exact ⟨h.2.symm, h.1.1, h.1.2.1, h.1.2.2.1⟩

theorem sampleParse_fits {packet : Bytes} {l : Layout} (h : sampleParse packet = some l) :
    l.Fits packet := by
  obtain ⟨rfl, hlength, hmax, hversion⟩ := sampleParse_some h
  refine ⟨?_, nofun, fun _ => ?_, by decide, hlength, hmax.trans (by decide)⟩
  · rw [hversion]
    rfl
  · rw [hversion]
    decide

theorem sampleParse_unique {a b : Bytes} {l l' : Layout} (ha : sampleParse a = some l)
    (hb : sampleParse b = some l')
    (_ : ∀ k < l.headerEnd, ¬ l.IsLength k → memory b k = memory a k) : l' = l :=
  (sampleParse_some hb).1.trans (sampleParse_some ha).1.symm

theorem sampleParse_same {a b : Bytes} {l : Layout} (ha : sampleParse a = some l)
    (h : SameExcept l.IsFree b a) : sampleParse b = some l := by
  obtain ⟨rfl, -⟩ := sampleParse_some ha
  have hplace (k : ℕ) (hk : k = 0 ∨ k = 2 ∨ k = 3 ∨ k = 9 ∨ k = 32) :
      ¬ (⟨false, 20, 40⟩ : Layout).IsFree k := by
    simp [Layout.IsFree, Layout.IsChecksum, Layout.ttlPlace]
    omega
  rw [sampleParse] at ha ⊢
  rw [h.length_eq, h.memory_eq 0 (hplace 0 (by omega)), h.memory_eq 9 (hplace 9 (by omega)),
    h.memory_eq 32 (hplace 32 (by omega)), h.be16_eq (hplace 2 (by omega)) (hplace 3 (by omega))]
  exact ha

theorem sampleChecksums_same {packet : Bytes} {l : Layout} (_ : DivertAddress)
    (h : sampleParse packet = some l) :
    SameExcept l.IsChecksum (sampleChecksums packet) packet := by
  obtain ⟨rfl, hlength, -⟩ := sampleParse_some h
  have hput (b : Bytes) (hb : b.length = packet.length) (i n : ℕ) (hi : i = 10 ∨ i = 36) :
      SameExcept (⟨false, 20, 40⟩ : Layout).IsChecksum (splice b i (put16 n)) b := by
    refine (SameExcept.of_splice_put16 (by omega)).mono fun k hk => ?_
    rcases hi with rfl | rfl
    · exact Or.inl ⟨rfl, hk⟩
    · exact Or.inr hk
  rw [sampleChecksums]
  have h₁ := hput packet rfl 10 0 (Or.inl rfl)
  generalize splice packet 10 (put16 0) = s₁ at h₁ ⊢
  have h₂ := (hput s₁ h₁.length_eq 10 (complement (wordSum (memory s₁) 0 10)) (Or.inl rfl)).trans h₁
  generalize splice s₁ 10 (put16 (complement (wordSum (memory s₁) 0 10))) = s₂ at h₂ ⊢
  have h₃ := (hput s₂ h₂.length_eq 36 0 (Or.inr rfl)).trans h₂
  generalize splice s₂ 36 (put16 0) = s₃ at h₃ ⊢
  exact (hput s₃ h₃.length_eq 36 _ (Or.inr rfl)).trans h₃

def sampleDivert : WinDivert where
  parse := sampleParse
  calcChecksums packet _ := sampleChecksums packet
  fits := sampleParse_fits
  parse_unique := sampleParse_unique
  parse_same := sampleParse_same
  calcChecksums_same := sampleChecksums_same

/-- A packet of a connection from port 52000 to 203.0.113.8. -/
def sampleSegment (payload : Bytes) : Bytes :=
  sampleChecksums ([0x45, 0] ++ put16 (40 + payload.length) ++
    [0, 1, 0x40, 0, 128, 6, 0, 0, 10, 0, 0, 2, 203, 0, 113, 8] ++ put16 52000 ++ put16 443 ++
    put32 1000 ++ put32 1 ++ [0x50, 0x18, 4, 0, 0, 0, 0, 0] ++ payload)

/-- The policy for a hello whose host name lies at 127. -/
def samplePolicy (mode : Mode) : Policy :=
  { mode, splitOffset := 132, sniBegin := 127, sniEnd := 138 }

def sampleRegistry (mode : Mode) : PolicyRegistry :=
  PolicyRegistry.arm {} Traffic.samplePton (ofString "203.0.113.8") 52000 (samplePolicy mode) 1000
    fun _ => 0

/-- The hello is spread over packets and the first one has 6 bytes of it. -/
def samplePacket : Bytes := sampleSegment [0x16, 3, 1, 2, 0, 1]

def sampleOutcome (mode : Mode) : Outcome :=
  (forwardToTarget sampleDivert (sampleRegistry mode) {} samplePacket ⟨false, 20, 40⟩
    { outbound := true } 1001 1002).outcome

/-- Cut in reverse order the packet arrives. -/
theorem reverse_order_sound :
    Sound sampleDivert (samplePolicy .reverseOrder) samplePacket ⟨false, 20, 40⟩
      { outbound := true } [] (sampleOutcome .reverseOrder) := by
  have hparse : sampleDivert.parse samplePacket = some ⟨false, 20, 40⟩ := by decide +kernel
  have htaken : ((sampleRegistry .reverseOrder).take (targetAddress samplePacket ⟨false, 20, 40⟩)
      (be16 (memory samplePacket) 20) (some (be32 (memory samplePacket) (20 + 4))) 1001).2 =
      some (samplePolicy .reverseOrder) := by decide +kernel
  refine (firstTls_sound_iff (sampleRegistry .reverseOrder) [] _ 1001 1002 hparse
    (by decide +kernel) (by decide +kernel) htaken).2 (Or.inr (not_cover_of_mode ?_ _))
  decide

theorem sampleSegment_cover :
    sampleSegment [0x16, 3, 1, 0, 77, 1] =
      [0x45, 0, 0, 46, 0, 1, 0x40, 0, 128, 6, 180, 190, 10, 0, 0, 2, 203, 0, 113, 8,
        203, 32, 1, 187, 0, 0, 3, 232, 0, 0, 0, 1, 0x50, 0x18, 4, 0, 48, 243, 0, 0,
        0x16, 3, 1, 0, 77, 1] := by
  decide +kernel

theorem sampleSegment_rest :
    sampleSegment [0x16, 3, 1, 2, 0] =
      [0x45, 0, 0, 45, 0, 1, 0x40, 0, 128, 6, 180, 191, 10, 0, 0, 2, 203, 0, 113, 8,
        203, 32, 1, 187, 0, 0, 3, 232, 0, 0, 0, 1, 0x50, 0x18, 4, 0, 125, 243, 0, 0,
        0x16, 3, 1, 2, 0] := by
  decide +kernel

/-- Cover bytes go out in the place of the first 5 bytes, under the same sequence number as
these, and come first. -/
theorem cover_replaces_hello :
    policyForProfile .packetSeqovl { sniOffset := 127, sniLength := 11 } =
        some (samplePolicy .sequenceOverlap) ∧
      ((sampleRegistry .sequenceOverlap).take (targetAddress samplePacket ⟨false, 20, 40⟩)
        (be16 (memory samplePacket) 20) (some (be32 (memory samplePacket) (20 + 4))) 1001).2 =
        some (samplePolicy .sequenceOverlap) ∧
      (sampleOutcome .sequenceOverlap).batch =
        PacketBatch.ofPackets [(sampleSegment [0x16, 3, 1, 0, 77, 1], { outbound := true }),
          (sampleSegment [0x16, 3, 1, 2, 0], { outbound := true })] ∧
      ¬ Sound sampleDivert (samplePolicy .sequenceOverlap) samplePacket ⟨false, 20, 40⟩
        { outbound := true } [] (sampleOutcome .sequenceOverlap) := by
  rw [sampleSegment_cover, sampleSegment_rest]
  refine ⟨by decide +kernel, by decide +kernel, by decide +kernel, ?_⟩
  have hparse : sampleDivert.parse samplePacket = some ⟨false, 20, 40⟩ := by decide +kernel
  have houtcome : sampleOutcome .sequenceOverlap =
      queueByPolicy sampleDivert (samplePolicy .sequenceOverlap) (PacketBatch.ofPackets [])
        samplePacket ⟨false, 20, 40⟩ { outbound := true } := by decide +kernel
  have hbuilt : ¬ Refused sampleDivert (samplePolicy .sequenceOverlap) samplePacket
      ⟨false, 20, 40⟩ { outbound := true } := by
    rw [Refused]
    decide +kernel
  have hcover : CoverInOrder (samplePolicy .sequenceOverlap) (samplePacket.drop 40) :=
    ⟨rfl, by decide +kernel, by decide +kernel⟩
  rw [houtcome]
  intro hsound
  rcases (queueByPolicy_sound_iff hparse (by decide +kernel)).1 hsound with hrefused | hgood
  · exact hbuilt hrefused
  · exact hgood (Or.inl hcover)

end Packet

end SplitHello
