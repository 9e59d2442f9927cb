import SplitHello.Packet.Split

/-!
# Packets built from a captured one

The driver's helpers locate the headers of a packet and compute its checksums. Of the
first it is assumed that what it finds depends on the headers alone, of the second that it
writes the checksum fields and nothing else; whether a packet is accepted at all is left
open. A variant of a packet has the same headers, another payload and another sequence
number.
-/

namespace SplitHello

namespace Packet

open ByteString

/-- The largest packet the driver takes. -/
def mtuMax : ℕ := 40 + 0xFFFF

/-- What the driver says about a packet besides its bytes. -/
structure DivertAddress where
  outbound : Bool
  ipChecksum : Bool := false
  tcpChecksum : Bool := false
  rest : Bytes := []
  deriving DecidableEq, Repr

/-- Where the headers of a TCP packet are; the payload is everything from `headerEnd`
on. -/
structure Layout where
  ipv6 : Bool
  tcp : ℕ
  headerEnd : ℕ
  deriving DecidableEq, Repr

namespace Layout

variable (l : Layout)

/-- The places of the length and of the time to live in the IP header. -/
def lengthPlace : ℕ := if l.ipv6 then 4 else 2
def ttlPlace : ℕ := if l.ipv6 then 7 else 8

def IsLength (k : ℕ) : Prop := l.lengthPlace ≤ k ∧ k < l.lengthPlace + 2

def IsChecksum (k : ℕ) : Prop :=
  l.ipv6 = false ∧ 10 ≤ k ∧ k < 12 ∨ l.tcp + 16 ≤ k ∧ k < l.tcp + 18

/-- The places of the fields that say nothing about where the headers are. -/
def IsFree (k : ℕ) : Prop :=
  l.IsChecksum k ∨ k = l.ttlPlace ∨ l.tcp + 4 ≤ k ∧ k < l.tcp + 8

/-- The headers lie where the packet says. -/
structure Fits (packet : Bytes) : Prop where
  version : (memory packet 0).toNat / 16 = if l.ipv6 then 6 else 4
  ipv6_le : l.ipv6 = true → 40 ≤ l.tcp
  ipv4_eq : l.ipv6 = false → l.tcp = (memory packet 0).toNat % 16 * 4 ∧ 20 ≤ l.tcp
  tcp_le : l.tcp + 20 ≤ l.headerEnd
  headerEnd_le : l.headerEnd ≤ packet.length
  length_le : packet.length ≤ mtuMax

end Layout

/-- The driver's helpers. -/
structure WinDivert where
  parse : Bytes → Option Layout
  calcChecksums : Bytes → DivertAddress → Bytes
  fits : ∀ {packet l}, parse packet = some l → l.Fits packet
  parse_unique : ∀ {a b l l'}, parse a = some l → parse b = some l' →
    (∀ k < l.headerEnd, ¬ l.IsLength k → memory b k = memory a k) → l' = l
  parse_same : ∀ {a b l}, parse a = some l → SameExcept l.IsFree b a → parse b = some l
  calcChecksums_same : ∀ {packet l} (address : DivertAddress), parse packet = some l →
    SameExcept l.IsChecksum (calcChecksums packet address) packet

variable (W : WinDivert)

/-- The new sequence number, length, time to live and checksums of a packet whose payload
has been replaced. -/
def finishVariant (l : Layout) (out : Bytes) (sequenceOffset : ℤ) (address : DivertAddress)
    (ttl : ℕ) (corruptChecksum : Bool) : Bytes :=
  let out := splice out l.lengthPlace (put16 (out.length - if l.ipv6 then 40 else 0))
  let out := if ttl ≠ 0 then splice out l.ttlPlace [UInt8.ofNat ttl] else out
  let sequence : ℤ := be32 (memory out) (l.tcp + 4)
  let out := splice out (l.tcp + 4) (put32 ((sequence + sequenceOffset) % 4294967296).toNat)
  let out := W.calcChecksums out address
  if corruptChecksum then
    splice out (l.tcp + 16) (put16 (65535 - be16 (memory out) (l.tcp + 16)))
  else out

def buildTcpVariant (packet : Bytes) (payload : ℕ) (replacement : Bytes) (sequenceOffset : ℤ)
    (address : DivertAddress) (ttl : ℕ) (corruptChecksum : Bool) : Option Bytes :=
  match W.parse packet with
  | none => none
  | some parsed =>
      if parsed.headerEnd = packet.length ∨ parsed.headerEnd ≠ payload then none
      else
        let headerLength := payload
        let totalLength := headerLength + replacement.length
        if headerLength = 0 ∨ totalLength > mtuMax then none
        else
          let out := packet.take headerLength ++ replacement
          let isIpv6 : Bool := (memory out 0).toNat / 16 = 6
          let ipBase := if isIpv6 then 40 else 0
          if out.length < ipBase ∨ out.length - ipBase > 65535 then none
          else
            -- The copied header still has the length of the original.
            let out := splice out (if isIpv6 then 4 else 2) (put16 (out.length - ipBase))
            match W.parse out with
            | none => none
            | some variant =>
                some (finishVariant W variant out sequenceOffset address ttl corruptChecksum)

/-! ## What a variant is -/

variable {W} {packet out replacement : Bytes} {l : Layout}

namespace Layout

theorem Fits.twenty_le (h : l.Fits packet) : 20 ≤ l.tcp := by
  cases hipv6 : l.ipv6 with
  | true => exact (by decide : 20 ≤ 40).trans (h.ipv6_le hipv6)
  | false => exact (h.ipv4_eq hipv6).2

theorem ttlPlace_lt : l.ttlPlace < 20 := by
  rw [ttlPlace]
  split <;> decide

theorem lengthPlace_lt : l.lengthPlace < 18 := by
  rw [lengthPlace]
  split <;> decide

/-- The length stands before the time to live, and this before the checksum. -/
theorem places_lt : l.lengthPlace + 2 ≤ l.ttlPlace ∧ l.ttlPlace < 10 := by
  rw [lengthPlace, ttlPlace]
  split <;> decide

/-- The fields that may change lie inside the headers. -/
theorem Fits.lt_of_isFree (h : l.Fits packet) {k : ℕ} (hk : l.IsFree k) : k < l.headerEnd := by
  have htcp := h.tcp_le
  have hip := h.twenty_le
  have httl := l.ttlPlace_lt
  rcases hk with (⟨-, hk⟩ | hk) | hk | hk <;> omega

end Layout

/-- Another time to live is the only change the choice of one makes. -/
theorem same_of_ttl (hout : 20 ≤ out.length) (ttl : ℕ) :
    SameExcept (fun k => k = l.ttlPlace)
      (if ttl ≠ 0 then splice out l.ttlPlace [UInt8.ofNat ttl] else out) out := by
  split
  · have httl := l.ttlPlace_lt
    refine (SameExcept.of_splice ?_).mono ?_
    · rw [List.length_singleton]
      omega
    · intro k hk
      rw [List.length_singleton] at hk
      omega
  · exact ⟨rfl, fun _ _ => rfl⟩

theorem same_of_corrupt (hout : l.tcp + 20 ≤ out.length) (corruptChecksum : Bool) :
    SameExcept l.IsChecksum
      (if corruptChecksum then
        splice out (l.tcp + 16) (put16 (65535 - be16 (memory out) (l.tcp + 16))) else out)
      out := by
  split
  · exact (SameExcept.of_splice_put16 (by omega)).mono fun k hk => Or.inr hk
  · exact ⟨rfl, fun _ _ => rfl⟩

/-- The checksums are what the driver computes for the packet, but for the TCP checksum if it is
to be wrong: this one has all its bits inverted. -/
def Checksummed (W : WinDivert) (l : Layout) (address : DivertAddress) (corruptChecksum : Bool)
    (out : Bytes) : Prop :=
  ∃ raw, SameExcept l.IsChecksum out raw ∧
    out = if corruptChecksum then
      splice (W.calcChecksums raw address) (l.tcp + 16)
        (put16 (65535 - be16 (memory (W.calcChecksums raw address)) (l.tcp + 16)))
    else W.calcChecksums raw address

/-- What is written at the end. -/
structure FinishedVariant (W : WinDivert) (l : Layout) (out : Bytes) (sequenceOffset : ℤ)
    (address : DivertAddress) (ttl : ℕ) (corruptChecksum : Bool) (finished : Bytes) : Prop where
  same : SameExcept l.IsFree finished out
  sequence_eq : be32 (memory finished) (l.tcp + 4) =
    ((be32 (memory out) (l.tcp + 4) + sequenceOffset) % 4294967296).toNat
  ttl_eq : memory finished l.ttlPlace =
    if ttl ≠ 0 then UInt8.ofNat ttl else memory out l.ttlPlace
  checksums : Checksummed W l address corruptChecksum finished

/-- The fields that are written at the end are free ones, and they are as they were asked for. -/
theorem finishVariant_finished (hparse : W.parse out = some l)
    (hlength : splice out l.lengthPlace (put16 (out.length - if l.ipv6 then 40 else 0)) = out)
    (sequenceOffset : ℤ) (address : DivertAddress) (ttl : ℕ) (corruptChecksum : Bool) :
    FinishedVariant W l out sequenceOffset address ttl corruptChecksum
      (finishVariant W l out sequenceOffset address ttl corruptChecksum) := by
  have hfits := W.fits hparse
  have htcp := hfits.tcp_le
  have hip := hfits.twenty_le
  have hend := hfits.headerEnd_le
  have httl := l.ttlPlace_lt
  rw [finishVariant, hlength]
  have h₁ : SameExcept (fun k => k = l.ttlPlace) _ out := same_of_ttl (by omega) ttl
  have hread₁ : memory (if ttl ≠ 0 then splice out l.ttlPlace [UInt8.ofNat ttl] else out)
      l.ttlPlace = if ttl ≠ 0 then UInt8.ofNat ttl else memory out l.ttlPlace := by
    split
    · exact memory_splice_of_mem (k := 0) (by rw [List.length_singleton]; omega) Nat.one_pos
    · rfl
  generalize (if ttl ≠ 0 then splice out l.ttlPlace [UInt8.ofNat ttl] else out) = s₁
    at h₁ hread₁ ⊢
  have hsequence : be32 (memory s₁) (l.tcp + 4) = be32 (memory out) (l.tcp + 4) :=
    h₁.be32_eq fun k hk => by omega
  rw [hsequence]
  generalize hnumber : ((be32 (memory out) (l.tcp + 4) + sequenceOffset : ℤ) % 4294967296).toNat =
    number
  have hsmall : number < 2 ^ 32 := by omega
  generalize hs₂ : splice s₁ (l.tcp + 4) (put32 number) = s₂
  have hroom₂ : l.tcp + 4 + (put32 number).length ≤ s₁.length := by
    rw [length_put32, h₁.length_eq]
    omega
  have h₂ : SameExcept (fun k => l.tcp + 4 ≤ k ∧ k < l.tcp + 8) s₂ s₁ :=
    hs₂ ▸ SameExcept.of_splice hroom₂
  have hread₂ : be32 (memory s₂) (l.tcp + 4) = number := hs₂ ▸ be32_splice_put32 hsmall hroom₂
  have hfree₂ : SameExcept l.IsFree s₂ out := by
    refine (h₂.mono ?_).trans (h₁.mono ?_)
    · exact fun k hk => Or.inr (Or.inr hk)
    · exact fun k hk => Or.inr (Or.inl hk)
  have h₃ := W.calcChecksums_same address (W.parse_same hparse hfree₂)
  have hlength₃ := h₃.length_eq.trans hfree₂.length_eq
  have hchecksum := (same_of_corrupt (by omega) corruptChecksum).trans h₃
  refine ⟨(hchecksum.mono fun k hk => Or.inl hk).trans hfree₂, ?_, ?_, s₂, hchecksum, rfl⟩
  · rw [hchecksum.be32_eq, hread₂, hnumber]
    intro k hk hplace
    rcases hplace with ⟨-, hplace⟩ | hplace <;> omega
  · rw [hchecksum.memory_eq, h₂.memory_eq, hread₁]
    · intro hplace
      omega
    · have hplaces := l.places_lt
      rintro (⟨-, hplace⟩ | hplace) <;> omega

/-- A packet with the headers of another one, except for the length and the fields that do not
matter for where they are, with its own sequence number, time to live, checksums and payload. -/
structure IsVariant (W : WinDivert) (packet : Bytes) (l : Layout) (address : DivertAddress)
    (ttl : ℕ) (corruptChecksum : Bool) (replacement : Bytes) (sequenceOffset : ℤ) (out : Bytes) :
    Prop where
  parse_eq : W.parse out = some l
  header_eq : ∀ k < l.headerEnd, ¬ l.IsLength k → ¬ l.IsFree k → memory out k = memory packet k
  length_eq : be16 (memory out) l.lengthPlace = out.length - if l.ipv6 then 40 else 0
  sequence_eq : be32 (memory out) (l.tcp + 4) =
    ((be32 (memory packet) (l.tcp + 4) + sequenceOffset) % 4294967296).toNat
  ttl_eq : memory out l.ttlPlace = if ttl ≠ 0 then UInt8.ofNat ttl else memory packet l.ttlPlace
  checksums : Checksummed W l address corruptChecksum out
  payload_eq : out.drop l.headerEnd = replacement

/-- The headers of a packet before another payload, with the length that goes with it. -/
def withReplacement (packet : Bytes) (l : Layout) (replacement : Bytes) : Bytes :=
  let out := packet.take l.headerEnd ++ replacement
  splice out l.lengthPlace (put16 (out.length - if l.ipv6 then 40 else 0))

/-- What is parsed again, and finished if that succeeds. -/
theorem buildTcpVariant_eq_some (hparse : W.parse packet = some l) {sequenceOffset : ℤ}
    {address : DivertAddress} {ttl : ℕ} {corruptChecksum : Bool}
    (h : buildTcpVariant W packet l.headerEnd replacement sequenceOffset address ttl
      corruptChecksum = some out) :
    (withReplacement packet l replacement).length - (if l.ipv6 then 40 else 0) < 65536 ∧
      ∃ variant, W.parse (withReplacement packet l replacement) = some variant ∧
        finishVariant W variant (withReplacement packet l replacement) sequenceOffset address ttl
          corruptChecksum = out := by
  have hfits := W.fits hparse
  have hversion : (decide ((memory (packet.take l.headerEnd ++ replacement) 0).toNat / 16 = 6)) =
      l.ipv6 := by
    have htcp := hfits.tcp_le
    have hend := hfits.headerEnd_le
    rw [memory_append_left _ (by rw [List.length_take]; omega), memory_take _ (by omega),
      hfits.version]
    cases l.ipv6 <;> rfl
  rw [buildTcpVariant, hparse] at h
  dsimp only at h
  rw [hversion, Option.ite_none_left_eq_some, Option.ite_none_left_eq_some,
    Option.ite_none_left_eq_some] at h
  obtain ⟨-, hroom, hlong, h⟩ := h
  have hcopy : splice (packet.take l.headerEnd ++ replacement) (if l.ipv6 = true then 4 else 2)
      (put16 ((packet.take l.headerEnd ++ replacement).length - if l.ipv6 = true then 40 else 0)) =
      withReplacement packet l replacement := rfl
  have hsame : (withReplacement packet l replacement).length =
      (packet.take l.headerEnd ++ replacement).length := by
    have htcp := hfits.tcp_le
    have hip := hfits.twenty_le
    have hend := hfits.headerEnd_le
    have hplace := l.lengthPlace_lt
    refine length_splice ?_
    rw [length_put16, List.length_append, List.length_take]
    omega
  refine ⟨by rw [hsame]; omega, ?_⟩
  rw [hcopy] at h
  cases hvariant : W.parse (withReplacement packet l replacement) with
  | none =>
      rw [hvariant] at h
      cases h
  | some variant =>
      rw [hvariant] at h
      exact ⟨variant, rfl, Option.some.inj h⟩

/-- Only the length differs in the headers, and writing it again changes nothing. -/
theorem withReplacement_spec (hfits : l.Fits packet) (replacement : Bytes) :
    (∀ k < l.headerEnd, ¬ l.IsLength k →
        memory (withReplacement packet l replacement) k = memory packet k) ∧
      (withReplacement packet l replacement).drop l.headerEnd = replacement ∧
      l.lengthPlace + 2 ≤ (withReplacement packet l replacement).length ∧
      splice (withReplacement packet l replacement) l.lengthPlace
          (put16 ((withReplacement packet l replacement).length - if l.ipv6 then 40 else 0)) =
        withReplacement packet l replacement := by
  have htcp := hfits.tcp_le
  have hip := hfits.twenty_le
  have hend := hfits.headerEnd_le
  have hplace := l.lengthPlace_lt
  have hlength : (packet.take l.headerEnd).length = l.headerEnd := by
    rw [List.length_take]
    omega
  have hroom : l.lengthPlace + 2 ≤ (packet.take l.headerEnd ++ replacement).length := by
    rw [List.length_append]
    omega
  have hsame : SameExcept l.IsLength (withReplacement packet l replacement)
      (packet.take l.headerEnd ++ replacement) := SameExcept.of_splice_put16 hroom
  refine ⟨fun k hk hnot => ?_, ?_, ?_, ?_⟩
  · rw [hsame.memory_eq k hnot, memory_append_left _ (by omega), memory_take _ hk]
  · rw [hsame.drop_eq, List.drop_left' hlength]
    intro k hk
    obtain ⟨-, hk⟩ := hk
    omega
  · rw [hsame.length_eq]
    exact hroom
  · rw [hsame.length_eq]
    exact splice_splice hroom rfl

/-- The length is none of the fields that may change. -/
theorem Layout.Fits.not_isFree (hfits : l.Fits packet) {k : ℕ} (hk : l.IsLength k) :
    ¬ l.IsFree k := by
  have hip := hfits.twenty_le
  have hplaces := l.places_lt
  obtain ⟨-, hhigh⟩ := hk
  rintro ((⟨-, hfree⟩ | hfree) | hfree | hfree) <;> omega

theorem buildTcpVariant_isVariant (hparse : W.parse packet = some l) {sequenceOffset : ℤ}
    {address : DivertAddress} {ttl : ℕ} {corruptChecksum : Bool}
    (h : buildTcpVariant W packet l.headerEnd replacement sequenceOffset address ttl
      corruptChecksum = some out) :
    IsVariant W packet l address ttl corruptChecksum replacement sequenceOffset out := by
  have hfits := W.fits hparse
  obtain ⟨hshort, variant, hvariant, hout⟩ := buildTcpVariant_eq_some hparse h
  obtain ⟨hheader, hpayload, hroom, hagain⟩ := withReplacement_spec hfits replacement
  obtain rfl : variant = l := W.parse_unique hparse hvariant hheader
  obtain ⟨hsame, hsequence, httl, hchecksums⟩ := finishVariant_finished hvariant hagain
    sequenceOffset address ttl corruptChecksum
  rw [hout] at hsame hsequence httl hchecksums
  have htcp := hfits.tcp_le
  have hip := hfits.twenty_le
  have hplace := variant.lengthPlace_lt
  have httlPlace := variant.ttlPlace_lt
  refine ⟨W.parse_same hvariant hsame, fun k hk hlength hfree => ?_, ?_, ?_, ?_, hchecksums, ?_⟩
  · rw [hsame.memory_eq k hfree, hheader k hk hlength]
  · have hwritten := be16_splice_put16 (b := withReplacement packet variant replacement)
      hshort hroom
    rw [hagain] at hwritten
    rw [hsame.length_eq, ← hwritten]
    exact hsame.be16_eq (hfits.not_isFree ⟨le_rfl, by omega⟩)
      (hfits.not_isFree ⟨by omega, by omega⟩)
  · rw [hsequence, be32_congr fun k hk => hheader _ (by omega) fun hlength => ?_]
    obtain ⟨-, hlength⟩ := hlength
    omega
  · rw [httl, hheader _ (by omega)]
    have hplaces := variant.places_lt
    rintro ⟨-, hhigh⟩
    omega
  · rw [hsame.drop_eq fun k hk => hfits.lt_of_isFree hk, hpayload]

end Packet

end SplitHello
