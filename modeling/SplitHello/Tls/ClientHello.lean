import SplitHello.Library.ByteString

/-!
# Reading a ClientHello

The bounds-checked inspection of the first TLS record of a buffer. The buffer is
a memory and a length; the cursor `Reader` carries the proof that its position
never passes its end, so every accessor either fails or stays inside.

Loops run on a fuel that is the number of bytes left; each round consumes at
least three of them, so the fuel is never what ends a loop.
-/

namespace SplitHello

namespace Tls

open ByteString

def recordHandshake : UInt8 := 0x16
def recordChangeCipherSpec : UInt8 := 0x14
def recordAlert : UInt8 := 0x15
def handshakeClientHello : UInt8 := 0x01
def handshakeServerHello : UInt8 := 0x02

def recordHeaderSize : ℕ := 5
def maxRecordPayload : ℕ := 16384
def extServerName : ℕ := 0x0000
def extEncryptedClientHello : ℕ := 0xfe0d

/-- The verdict on a buffer that should begin with a TLS record. -/
inductive ParseStatus
  | ok
  | needMore
  | notTls
  | malformed
  deriving DecidableEq, Repr

/-- What is known of the first record of a buffer. Offsets are absolute. -/
structure ClientHello where
  recordPayloadLength : ℕ := 0
  recordTotalLength : ℕ := 0
  sniOffset : ℕ := 0
  sniLength : ℕ := 0
  serverName : Bytes := []
  hasEch : Bool := false
  spansRecords : Bool := false
  deriving DecidableEq, Repr

def ClientHello.hasSni (hello : ClientHello) : Bool := 0 < hello.sniLength

/-- A cursor inside a region of the buffer. -/
structure Reader where
  pos : ℕ
  stop : ℕ
  le : pos ≤ stop

namespace Reader

def remaining (r : Reader) : ℕ := r.stop - r.pos

def skip (r : Reader) (n : ℕ) : Option Reader :=
  if h : n ≤ r.stop - r.pos then
    some ⟨r.pos + n, r.stop, by have := r.le; omega⟩
  else none

def u8 (data : Memory) (r : Reader) : Option (UInt8 × Reader) :=
  (r.skip 1).map fun next => (data r.pos, next)

def u16 (data : Memory) (r : Reader) : Option (ℕ × Reader) :=
  (r.skip 2).map fun next => (be16 data r.pos, next)

/-- The region of the next `n` bytes. -/
def take (r : Reader) (n : ℕ) : Reader := ⟨r.pos, r.pos + n, by omega⟩

end Reader

/-- The entries of a server_name list, up to the first host_name. -/
def serverNameLoop (data : Memory) : ℕ → Reader → ClientHello → Bool × ClientHello
  | 0, _, out => (false, out)
  | fuel + 1, list, out =>
      if list.remaining = 0 then (false, out)
      else
        match list.u8 data with
        | none => (false, out)
        | some (nameType, list) =>
            match list.u16 data with
            | none => (false, out)
            | some (nameLength, list) =>
                if nameLength > list.remaining then (false, out)
                else if nameType = 0 then
                  (true, { out with
                    sniOffset := list.pos
                    sniLength := nameLength
                    serverName := slice data list.pos nameLength })
                else
                  match list.skip nameLength with
                  | none => (false, out)
                  | some list => serverNameLoop data fuel list out

/-- The server_name extension body: `list_length(2) { name_type(1) name_length(2) name }*`. -/
def readServerName (data : Memory) (ext : Reader) (out : ClientHello) : Bool × ClientHello :=
  match ext.u16 data with
  | none => (false, out)
  | some (listLength, r) =>
      if listLength > r.remaining then (false, out)
      else serverNameLoop data listLength (r.take listLength) out

/-- The extensions of the declared block, one after the other. -/
def extensionsLoop (data : Memory) : ℕ → Reader → ClientHello → ParseStatus × ClientHello
  | 0, _, out => (.ok, out)
  | fuel + 1, block, out =>
      if block.remaining = 0 then (.ok, out)
      else
        match block.u16 data with
        | none => (.malformed, out)
        | some (extType, block) =>
            match block.u16 data with
            | none => (.malformed, out)
            | some (extLength, block) =>
                if extLength > block.remaining then (.malformed, out)
                else
                  let out :=
                    if extType = extEncryptedClientHello then { out with hasEch := true }
                    else if extType = extServerName ∧ out.hasSni = false then
                      (readServerName data (block.take extLength) out).2
                    else out
                  match block.skip extLength with
                  | none => (.malformed, out)
                  | some block => extensionsLoop data fuel block out

def parseExtensions (data : Memory) (r : Reader) (out : ClientHello) :
    ParseStatus × ClientHello :=
  match r.u16 data with
  | none => (.malformed, out)
  | some (extensionsLength, r) =>
      if extensionsLength > r.remaining then (.malformed, out)
      else extensionsLoop data extensionsLength (r.take extensionsLength) out

/-- Client version, random, session id, cipher suites and compression methods. -/
def skipFixedPart (data : Memory) (r : Reader) : Option Reader := do
  let r ← r.skip 2
  let r ← r.skip 32
  let (sessionIdLength, r) ← r.u8 data
  let r ← r.skip sessionIdLength.toNat
  let (cipherSuitesLength, r) ← r.u16 data
  let r ← r.skip cipherSuitesLength
  let (compressionLength, r) ← r.u8 data
  r.skip compressionLength.toNat

/-- The handshake message behind a complete record header; `out` already holds
the lengths of the record. -/
def parseHandshake (data : Memory) (out : ClientHello) : ParseStatus × ClientHello :=
  if out.recordPayloadLength < 4 then (.malformed, out)
  else if data recordHeaderSize ≠ handshakeClientHello then (.notTls, out)
  else
    let bodyStart := recordHeaderSize + 4
    let handshakeLength := be24 data (recordHeaderSize + 1)
    -- A client that already spread its hello over several records is left alone.
    if bodyStart + handshakeLength > out.recordTotalLength then
      (.ok, { out with spansRecords := true })
    else
      match skipFixedPart data ⟨bodyStart, bodyStart + handshakeLength, by omega⟩ with
      | none => (.malformed, out)
      | some r => if r.remaining = 0 then (.ok, out) else parseExtensions data r out

def parseClientHello (data : Memory) (len : ℕ) : ParseStatus × ClientHello :=
  if len = 0 then (.needMore, {})
  else if data 0 ≠ recordHandshake then (.notTls, {})
  else if len < 2 then (.needMore, {})
  else if data 1 ≠ 0x03 then (.notTls, {})
  else if len < recordHeaderSize then (.needMore, {})
  else
    let payloadLength := be16 data 3
    if payloadLength = 0 ∨ payloadLength > maxRecordPayload then (.malformed, {})
    else
      let out : ClientHello :=
        { recordPayloadLength := payloadLength
          recordTotalLength := recordHeaderSize + payloadLength }
      if len < out.recordTotalLength then (.needMore, out)
      else parseHandshake data out

/-- The answer of a server while a profile is probed. -/
inductive ServerResponseStatus
  | needMore
  | serverHello
  | alert
  | unexpected
  deriving DecidableEq, Repr

/-- The records of a server's first flight from `offset` on. -/
def classifyLoop (data : Memory) (len : ℕ) : ℕ → ℕ → ServerResponseStatus
  | 0, _ => .needMore
  | fuel + 1, offset =>
      if len ≤ offset then .needMore
      else if len - offset < recordHeaderSize then .needMore
      else if data (offset + 1) ≠ 0x03 then .unexpected
      else
        let payloadLength := be16 data (offset + 3)
        if payloadLength = 0 ∨ payloadLength > maxRecordPayload then .unexpected
        else
          let totalLength := recordHeaderSize + payloadLength
          if len - offset < totalLength then .needMore
          else if data offset = recordAlert then .alert
          else if data offset = recordHandshake then
            if payloadLength ≥ 4 ∧ data (offset + recordHeaderSize) = handshakeServerHello then
              .serverHello
            else .unexpected
          else if data offset ≠ recordChangeCipherSpec then .unexpected
          else classifyLoop data len fuel (offset + totalLength)

def classifyServerResponse (data : Memory) (len : ℕ) : ServerResponseStatus :=
  classifyLoop data len len 0

/-! A cursor only moves forward and never leaves its region, so what holds of a hello after
the parser is done with a region is what every note taken there keeps. The record lengths
are settled before, and no later stage touches them. -/

/-- The two hellos agree on the record they describe. -/
structure SameRecord (out out' : ClientHello) : Prop where
  payload : out'.recordPayloadLength = out.recordPayloadLength
  total : out'.recordTotalLength = out.recordTotalLength
  spans : out'.spansRecords = out.spansRecords

theorem SameRecord.refl (out : ClientHello) : SameRecord out out := ⟨rfl, rfl, rfl⟩

theorem SameRecord.trans {a b c : ClientHello} (h₁ : SameRecord a b)
    (h₂ : SameRecord b c) : SameRecord a c :=
  ⟨h₂.payload.trans h₁.payload, h₂.total.trans h₁.total, h₂.spans.trans h₁.spans⟩

namespace Reader

/-- A cursor further on, in the same region or in a part of it. -/
structure Within (r r' : Reader) : Prop where
  pos_le : r.pos ≤ r'.pos
  stop_le : r'.stop ≤ r.stop

theorem Within.trans {a b c : Reader} (h₁ : Within a b) (h₂ : Within b c) : Within a c :=
  ⟨Nat.le_trans h₁.pos_le h₂.pos_le, Nat.le_trans h₂.stop_le h₁.stop_le⟩

theorem skip_within {r r' : Reader} {n : ℕ} (h : r.skip n = some r') : Within r r' := by
  rw [skip] at h
  split at h
  · rw [← Option.some.inj h]
    exact ⟨Nat.le_add_right _ _, Nat.le_refl _⟩
  · cases h

theorem u8_within {data : Memory} {r r' : Reader} {value : UInt8}
    (h : r.u8 data = some (value, r')) : Within r r' := by
  obtain ⟨next, hnext, heq⟩ := Option.map_eq_some_iff.1 h
  cases heq
  exact skip_within hnext

theorem u16_within {data : Memory} {r r' : Reader} {value : ℕ}
    (h : r.u16 data = some (value, r')) : Within r r' := by
  obtain ⟨next, hnext, heq⟩ := Option.map_eq_some_iff.1 h
  cases heq
  exact skip_within hnext

theorem take_within {r : Reader} {n : ℕ} (h : ¬n > r.remaining) : Within r (r.take n) := by
  have hle := r.le
  rw [remaining] at h
  refine ⟨Nat.le_refl _, ?_⟩
  dsimp only [take]
  omega

end Reader

/-- What survives every note that is taken of a region: that there is an encrypted hello,
and where a name was found. -/
structure Keeps (data : Memory) (r : Reader) (P : ClientHello → Prop) : Prop where
  ech : ∀ out, P out → P { out with hasEch := true }
  name : ∀ out pos length, r.pos ≤ pos → pos + length ≤ r.stop → P out →
    P { out with
      sniOffset := pos
      sniLength := length
      serverName := slice data pos length }

section

variable {data : Memory} {P : ClientHello → Prop}

theorem Keeps.within {r r' : Reader} (h : Keeps data r P) (hw : r.Within r') :
    Keeps data r' P :=
  ⟨h.ech, fun out pos length hpos hstop =>
    h.name out pos length (Nat.le_trans hw.pos_le hpos) (Nat.le_trans hstop hw.stop_le)⟩

theorem serverNameLoop_keeps (fuel : ℕ) {list : Reader} (h : Keeps data list P)
    {out : ClientHello} (hout : P out) : P (serverNameLoop data fuel list out).2 := by
  induction fuel generalizing list with
  | zero => exact hout
  | succ fuel ih =>
      unfold serverNameLoop
      split
      · exact hout
      split
      · exact hout
      rename_i nameType typed hu8
      split
      · exact hout
      rename_i nameLength measured hu16
      have hread := (Reader.u8_within hu8).trans (Reader.u16_within hu16)
      split
      · exact hout
      rename_i hfits
      split
      · exact (h.within hread).name out _ _ (Nat.le_refl _) (Reader.take_within hfits).stop_le hout
      split
      · exact hout
      rename_i rest hskip
      exact ih (h.within (hread.trans (Reader.skip_within hskip)))

theorem readServerName_keeps {ext : Reader} (h : Keeps data ext P) {out : ClientHello}
    (hout : P out) : P (readServerName data ext out).2 := by
  unfold readServerName
  split
  · exact hout
  rename_i listLength r hu16
  split
  · exact hout
  rename_i hfits
  exact serverNameLoop_keeps listLength
    (h.within ((Reader.u16_within hu16).trans (Reader.take_within hfits))) hout

theorem extensionsLoop_keeps (fuel : ℕ) {block : Reader} (h : Keeps data block P)
    {out : ClientHello} (hout : P out) : P (extensionsLoop data fuel block out).2 := by
  induction fuel generalizing block out with
  | zero => exact hout
  | succ fuel ih =>
      unfold extensionsLoop
      split
      · exact hout
      split
      · exact hout
      rename_i extType typed htype
      split
      · exact hout
      rename_i extLength measured hlength
      have hread := (Reader.u16_within htype).trans (Reader.u16_within hlength)
      split
      · exact hout
      rename_i hfits
      have hnoted : P
          (if extType = extEncryptedClientHello then { out with hasEch := true }
            else if extType = extServerName ∧ out.hasSni = false then
              (readServerName data (measured.take extLength) out).2
            else out) := by
        split
        · exact h.ech out hout
        split
        · exact readServerName_keeps (h.within (hread.trans (Reader.take_within hfits))) hout
        · exact hout
      dsimp only
      split
      · exact hnoted
      rename_i rest hskip
      exact ih (h.within (hread.trans (Reader.skip_within hskip))) hnoted

theorem parseExtensions_keeps {r : Reader} (h : Keeps data r P) {out : ClientHello}
    (hout : P out) : P (parseExtensions data r out).2 := by
  unfold parseExtensions
  split
  · exact hout
  rename_i extensionsLength rest hu16
  split
  · exact hout
  rename_i hfits
  exact extensionsLoop_keeps extensionsLength
    (h.within ((Reader.u16_within hu16).trans (Reader.take_within hfits))) hout

end

theorem parseExtensions_sameRecord (data : Memory) (r : Reader) (out : ClientHello) :
    SameRecord out (parseExtensions data r out).2 :=
  parseExtensions_keeps (P := SameRecord out)
    ⟨fun _ h => ⟨h.payload, h.total, h.spans⟩,
      fun _ _ _ _ _ h => ⟨h.payload, h.total, h.spans⟩⟩ (SameRecord.refl out)

/-- What an accepted record looks like from outside. -/
structure CompleteRecord (data : Memory) (len : ℕ) (hello : ClientHello) : Prop where
  contentType : data 0 = recordHandshake
  version : data 1 = 0x03
  payload : hello.recordPayloadLength = be16 data 3
  payload_ge : 4 ≤ hello.recordPayloadLength
  payload_le : hello.recordPayloadLength ≤ maxRecordPayload
  total : hello.recordTotalLength = recordHeaderSize + hello.recordPayloadLength
  inside : hello.recordTotalLength ≤ len

/-- The reader of the handshake message. -/
def handshakeBody (data : Memory) : Reader :=
  ⟨recordHeaderSize + 4, recordHeaderSize + 4 + be24 data (recordHeaderSize + 1),
    Nat.le_add_right _ _⟩

theorem parseHandshake_eq (data : Memory) (out : ClientHello) :
    parseHandshake data out =
      if out.recordPayloadLength < 4 then (.malformed, out)
      else if data recordHeaderSize ≠ handshakeClientHello then (.notTls, out)
      else if recordHeaderSize + 4 + be24 data (recordHeaderSize + 1) > out.recordTotalLength then
        (.ok, { out with spansRecords := true })
      else (skipFixedPart data (handshakeBody data)).elim (.malformed, out) fun r =>
        if r.remaining = 0 then (.ok, out) else parseExtensions data r out := by
  rw [parseHandshake]
  refine congrArg (ite _ _) (congrArg (ite _ _) ?_)
  -- A name for the length keeps the bytes it is read from out of the comparison.
  obtain ⟨length, hlength⟩ : ∃ length, be24 data (recordHeaderSize + 1) = length := ⟨_, rfl⟩
  have hbody : handshakeBody data = ⟨recordHeaderSize + 4, recordHeaderSize + 4 + length,
      Nat.le_add_right _ _⟩ := by
    simp only [handshakeBody, hlength]
  rw [hbody]
  simp only [hlength]
  cases skipFixedPart data ⟨recordHeaderSize + 4, recordHeaderSize + 4 + length,
    Nat.le_add_right _ _⟩ <;> rfl

theorem parseHandshake_ok {data : Memory} {out hello : ClientHello}
    (h : parseHandshake data out = (.ok, hello)) :
    4 ≤ out.recordPayloadLength ∧
      hello.recordPayloadLength = out.recordPayloadLength ∧
      hello.recordTotalLength = out.recordTotalLength := by
  rw [parseHandshake_eq] at h
  split at h
  · cases h
  rename_i hlen
  split at h
  · cases h
  split at h
  · cases h
    exact ⟨by omega, rfl, rfl⟩
  cases hskip : skipFixedPart data (handshakeBody data) with
  | none =>
      rw [hskip] at h
      cases h
  | some r =>
      rw [hskip, Option.elim_some] at h
      split at h
      · cases h
        exact ⟨by omega, rfl, rfl⟩
      · have hsame := parseExtensions_sameRecord data r out
        rw [h] at hsame
        exact ⟨by omega, hsame.payload, hsame.total⟩

/-- What an accepted buffer has in front of the handshake message. -/
theorem parseClientHello_reads {data : Memory} {len : ℕ} {hello : ClientHello}
    (h : parseClientHello data len = (.ok, hello)) :
    (data 0 = recordHandshake ∧ data 1 = 0x03) ∧ be16 data 3 ≤ maxRecordPayload ∧
      recordHeaderSize + be16 data 3 ≤ len ∧
      parseHandshake data { recordPayloadLength := be16 data 3
                            recordTotalLength := recordHeaderSize + be16 data 3 } =
        (.ok, hello) := by
  unfold parseClientHello at h
  split at h
  · cases h
  split at h
  · cases h
  rename_i hlen htype
  split at h
  · cases h
  split at h
  · cases h
  rename_i hversion
  split at h
  · cases h
  dsimp only at h
  split at h
  · cases h
  rename_i hpayload
  split at h
  · cases h
  rename_i hinside
  rw [not_or] at hpayload
  exact ⟨⟨not_not.1 htype, not_not.1 hversion⟩, Nat.le_of_not_lt hpayload.2,
    Nat.le_of_not_lt hinside, h⟩

theorem parseClientHello_ok {data : Memory} {len : ℕ} {hello : ClientHello}
    (h : parseClientHello data len = (.ok, hello)) : CompleteRecord data len hello := by
  obtain ⟨⟨htype, hversion⟩, hmax, hinside, hread⟩ := parseClientHello_reads h
  obtain ⟨hge, hpay, htotal⟩ := parseHandshake_ok hread
  dsimp only at hge hpay htotal
  exact {
    contentType := htype
    version := hversion
    payload := hpay
    payload_ge := by omega
    payload_le := by omega
    total := by rw [htotal, hpay]
    inside := by omega }

/-- A small hello for the host `a.bc`, followed by three bytes the client sent
behind it. -/
def sampleBuffer : Bytes :=
  [0x16, 3, 1, 0, 60, 1, 0, 0, 56, 3, 3] ++ List.replicate 32 0 ++
    [0, 0, 2, 0x13, 1, 1, 0, 0, 13, 0, 0, 0, 9, 0, 7, 0, 0, 4, 97, 46, 98, 99] ++ [23, 3, 3]

/-- What the parser makes of `sampleBuffer`. -/
def sampleHello : ClientHello :=
  { recordPayloadLength := 60
    recordTotalLength := 65
    sniOffset := 61
    sniLength := 4
    serverName := ofString "a.bc" }

theorem parseClientHello_sampleBuffer :
    parseClientHello (memory sampleBuffer) sampleBuffer.length = (.ok, sampleHello) := by
  decide

end Tls

end SplitHello
