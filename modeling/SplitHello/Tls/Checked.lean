import SplitHello.Library.Checked
import SplitHello.Tls.Streaming

/-!
# The parsers with checked reads

`parseClientHello` and `classifyServerResponse` again, access by access. Here a byte outside
the buffer and a loop that does not come to its end are no result. Every buffer has one, and
it is the one the plain definitions compute; so the parsers stay inside their buffers and
their loops end, whatever lengths the bytes declare.
-/

namespace SplitHello

namespace Tls

open ByteString

namespace Checked

def u8 (data : Memory) (len : ℕ) (r : Reader) : Option (Option (UInt8 × Reader)) :=
  match r.skip 1 with
  | none => some none
  | some next => (loadByte data len r.pos).map fun value => some (value, next)

def u16 (data : Memory) (len : ℕ) (r : Reader) : Option (Option (ℕ × Reader)) :=
  match r.skip 2 with
  | none => some none
  | some next => (load16 data len r.pos).map fun value => some (value, next)

def serverNameLoop (data : Memory) (len : ℕ) :
    ℕ → Reader → ClientHello → Option (Bool × ClientHello)
  | 0, _, _ => none
  | fuel + 1, list, out =>
      if list.remaining = 0 then some (false, out)
      else
        (u8 data len list).bind fun
          | none => some (false, out)
          | some (nameType, list) =>
              (u16 data len list).bind fun
                | none => some (false, out)
                | some (nameLength, list) =>
                    if nameLength > list.remaining then some (false, out)
                    else if nameType = 0 then
                      (loadSlice data len list.pos nameLength).map fun serverName =>
                        (true, { out with
                          sniOffset := list.pos
                          sniLength := nameLength
                          serverName })
                    else
                      match list.skip nameLength with
                      | none => some (false, out)
                      | some list => serverNameLoop data len fuel list out

def readServerName (data : Memory) (len : ℕ) (ext : Reader) (out : ClientHello) :
    Option (Bool × ClientHello) :=
  (u16 data len ext).bind fun
    | none => some (false, out)
    | some (listLength, r) =>
        if listLength > r.remaining then some (false, out)
        else serverNameLoop data len (listLength + 1) (r.take listLength) out

def extensionsLoop (data : Memory) (len : ℕ) :
    ℕ → Reader → ClientHello → Option (ParseStatus × ClientHello)
  | 0, _, _ => none
  | fuel + 1, block, out =>
      if block.remaining = 0 then some (.ok, out)
      else
        (u16 data len block).bind fun
          | none => some (.malformed, out)
          | some (extType, block) =>
              (u16 data len block).bind fun
                | none => some (.malformed, out)
                | some (extLength, block) =>
                    if extLength > block.remaining then some (.malformed, out)
                    else
                      (if extType = extEncryptedClientHello then
                          some { out with hasEch := true }
                        else if extType = extServerName ∧ out.hasSni = false then
                          (readServerName data len (block.take extLength) out).map Prod.snd
                        else some out).bind fun out =>
                          match block.skip extLength with
                          | none => some (.malformed, out)
                          | some block => extensionsLoop data len fuel block out

def parseExtensions (data : Memory) (len : ℕ) (r : Reader) (out : ClientHello) :
    Option (ParseStatus × ClientHello) :=
  (u16 data len r).bind fun
    | none => some (.malformed, out)
    | some (extensionsLength, r) =>
        if extensionsLength > r.remaining then some (.malformed, out)
        else extensionsLoop data len (extensionsLength + 1) (r.take extensionsLength) out

/-- The skips between the handshake header and the extensions. -/
def skipFixedPart (data : Memory) (len : ℕ) (r : Reader) : Option (Option Reader) :=
  match (r.skip 2).bind fun r => r.skip 32 with
  | none => some none
  | some r =>
      (u8 data len r).bind fun
        | none => some none
        | some (sessionIdLength, r) =>
            match r.skip sessionIdLength.toNat with
            | none => some none
            | some r =>
                (u16 data len r).bind fun
                  | none => some none
                  | some (cipherSuitesLength, r) =>
                      match r.skip cipherSuitesLength with
                      | none => some none
                      | some r =>
                          (u8 data len r).map fun
                            | none => none
                            | some (compressionLength, r) => r.skip compressionLength.toNat

def parseHandshake (data : Memory) (len : ℕ) (out : ClientHello) :
    Option (ParseStatus × ClientHello) :=
  if out.recordPayloadLength < 4 then some (.malformed, out)
  else
    (loadByte data len recordHeaderSize).bind fun handshakeType =>
      if handshakeType ≠ handshakeClientHello then some (.notTls, out)
      else
        (load24 data len (recordHeaderSize + 1)).bind fun handshakeLength =>
          let bodyStart := recordHeaderSize + 4
          if bodyStart + handshakeLength > out.recordTotalLength then
            some (.ok, { out with spansRecords := true })
          else
            (skipFixedPart data len
                ⟨bodyStart, bodyStart + handshakeLength, Nat.le_add_right _ _⟩).bind fun
              | none => some (.malformed, out)
              | some r =>
                  if r.remaining = 0 then some (.ok, out) else parseExtensions data len r out

def parseClientHello (data : Memory) (len : ℕ) : Option (ParseStatus × ClientHello) :=
  if len = 0 then some (.needMore, {})
  else
    (loadByte data len 0).bind fun contentType =>
      if contentType ≠ recordHandshake then some (.notTls, {})
      else if len < 2 then some (.needMore, {})
      else
        (loadByte data len 1).bind fun version =>
          if version ≠ 0x03 then some (.notTls, {})
          else if len < recordHeaderSize then some (.needMore, {})
          else
            (load16 data len 3).bind fun payloadLength =>
              if payloadLength = 0 ∨ payloadLength > maxRecordPayload then some (.malformed, {})
              else
                let out : ClientHello :=
                  { recordPayloadLength := payloadLength
                    recordTotalLength := recordHeaderSize + payloadLength }
                if len < out.recordTotalLength then some (.needMore, out)
                else parseHandshake data len out

def classifyLoop (data : Memory) (len : ℕ) : ℕ → ℕ → Option ServerResponseStatus
  | 0, _ => none
  | fuel + 1, offset =>
      if len ≤ offset then some .needMore
      else if len - offset < recordHeaderSize then some .needMore
      else
        (loadByte data len offset).bind fun contentType =>
          (loadByte data len (offset + 1)).bind fun version =>
            if version ≠ 0x03 then some .unexpected
            else
              (load16 data len (offset + 3)).bind fun payloadLength =>
                if payloadLength = 0 ∨ payloadLength > maxRecordPayload then some .unexpected
                else
                  let totalLength := recordHeaderSize + payloadLength
                  if len - offset < totalLength then some .needMore
                  else if contentType = recordAlert then some .alert
                  else if contentType = recordHandshake then
                    if payloadLength ≥ 4 then
                      (loadByte data len (offset + recordHeaderSize)).map fun handshakeType =>
                        if handshakeType = handshakeServerHello then .serverHello
                        else .unexpected
                    else some .unexpected
                  else if contentType ≠ recordChangeCipherSpec then some .unexpected
                  else classifyLoop data len fuel (offset + totalLength)

/-- `rounds` is how often the loop may run. -/
def classifyServerResponse (data : Memory) (len rounds : ℕ) : Option ServerResponseStatus :=
  classifyLoop data len rounds 0

/-! ## No read leaves the buffer -/

section

variable {data : Memory} {len : ℕ}

theorem remaining_take_le (r : Reader) (n : ℕ) : (r.take n).remaining ≤ n := by
  rw [Reader.remaining, Reader.take]
  dsimp only
  omega

theorem u8_eq {r : Reader} (hstop : r.stop ≤ len) : u8 data len r = some (r.u8 data) := by
  rw [u8, Reader.u8]
  cases hskip : r.skip 1 with
  | none => rfl
  | some next =>
      have hpos := Reader.skip_le hskip
      dsimp only
      rw [loadByte_of_lt (by omega)]
      rfl

theorem u16_eq {r : Reader} (hstop : r.stop ≤ len) : u16 data len r = some (r.u16 data) := by
  rw [u16, Reader.u16]
  cases hskip : r.skip 2 with
  | none => rfl
  | some next =>
      have hpos := Reader.skip_le hskip
      dsimp only
      rw [load16_of_le (by omega)]
      rfl

/-- A round that goes on takes at least three bytes, so the rounds that the declared length
allows are enough. -/
theorem serverNameLoop_eq (fuel : ℕ) {list : Reader} (hstop : list.stop ≤ len)
    (hfuel : list.remaining ≤ fuel) (out : ClientHello) :
    serverNameLoop data len (fuel + 1) list out =
      some (Tls.serverNameLoop data fuel list out) := by
  induction fuel generalizing list with
  | zero =>
      rw [serverNameLoop, if_pos (Nat.le_zero.1 hfuel)]
      rfl
  | succ fuel ih =>
      rw [serverNameLoop, Tls.serverNameLoop]
      split
      · rfl
      rw [u8_eq hstop, Option.bind_some]
      cases hu8 : list.u8 data with
      | none => rfl
      | some typed =>
          obtain ⟨nameType, list'⟩ := typed
          have hstop' : list'.stop ≤ len := Nat.le_trans (Reader.u8_within hu8).stop_le hstop
          have hpos' := Reader.u8_pos hu8
          dsimp only
          rw [u16_eq hstop', Option.bind_some]
          cases hu16 : list'.u16 data with
          | none => rfl
          | some measured =>
              obtain ⟨nameLength, list''⟩ := measured
              have hstop'' : list''.stop ≤ len :=
                Nat.le_trans (Reader.u16_within hu16).stop_le hstop'
              have hpos'' := Reader.u16_pos hu16
              have hsame := (Reader.u16_stop hu16).trans (Reader.u8_stop hu8)
              have hle := list''.le
              rw [Reader.remaining] at hfuel
              dsimp only
              split
              · rfl
              rename_i hfits
              rw [Reader.remaining] at hfits
              split
              · rw [loadSlice_of_le (by omega)]
                rfl
              cases hskip : list''.skip nameLength with
              | none => rfl
              | some rest =>
                  have hrest := Reader.skip_stop hskip
                  have hpos := Reader.skip_pos hskip
                  refine ih (by omega) ?_
                  rw [Reader.remaining]
                  omega

theorem readServerName_eq {ext : Reader} (hstop : ext.stop ≤ len) (out : ClientHello) :
    readServerName data len ext out = some (Tls.readServerName data ext out) := by
  rw [readServerName, Tls.readServerName, u16_eq hstop, Option.bind_some]
  cases hu16 : ext.u16 data with
  | none => rfl
  | some measured =>
      obtain ⟨listLength, r⟩ := measured
      have hr : r.stop ≤ len := Nat.le_trans (Reader.u16_within hu16).stop_le hstop
      dsimp only
      split
      · rfl
      rename_i hfits
      exact serverNameLoop_eq listLength (Nat.le_trans (Reader.take_within hfits).stop_le hr)
        (remaining_take_le r listLength) out

/-- Four bytes at least are taken by every round that goes on. -/
theorem extensionsLoop_eq (fuel : ℕ) {block : Reader} (hstop : block.stop ≤ len)
    (hfuel : block.remaining ≤ fuel) (out : ClientHello) :
    extensionsLoop data len (fuel + 1) block out =
      some (Tls.extensionsLoop data fuel block out) := by
  induction fuel generalizing block out with
  | zero =>
      rw [extensionsLoop, if_pos (Nat.le_zero.1 hfuel)]
      rfl
  | succ fuel ih =>
      rw [extensionsLoop, Tls.extensionsLoop]
      split
      · rfl
      rw [u16_eq hstop, Option.bind_some]
      cases htype : block.u16 data with
      | none => rfl
      | some typed =>
          obtain ⟨extType, block'⟩ := typed
          have hstop' : block'.stop ≤ len := Nat.le_trans (Reader.u16_within htype).stop_le hstop
          have hpos' := Reader.u16_pos htype
          dsimp only
          rw [u16_eq hstop', Option.bind_some]
          cases hlength : block'.u16 data with
          | none => rfl
          | some measured =>
              obtain ⟨extLength, block''⟩ := measured
              have hstop'' : block''.stop ≤ len :=
                Nat.le_trans (Reader.u16_within hlength).stop_le hstop'
              have hpos'' := Reader.u16_pos hlength
              have hsame := (Reader.u16_stop hlength).trans (Reader.u16_stop htype)
              rw [Reader.remaining] at hfuel
              dsimp only
              split
              · rfl
              rename_i hfits
              have hnoted :
                  (if extType = extEncryptedClientHello then some { out with hasEch := true }
                    else if extType = extServerName ∧ out.hasSni = false then
                      (readServerName data len (block''.take extLength) out).map Prod.snd
                    else some out) =
                  some (if extType = extEncryptedClientHello then { out with hasEch := true }
                    else if extType = extServerName ∧ out.hasSni = false then
                      (Tls.readServerName data (block''.take extLength) out).2
                    else out) := by
                rw [readServerName_eq (Nat.le_trans (Reader.take_within hfits).stop_le hstop'')]
                split
                · rfl
                split <;> rfl
              rw [hnoted, Option.bind_some]
              rw [Reader.remaining] at hfits
              cases hskip : block''.skip extLength with
              | none => rfl
              | some rest =>
                  have hrest := Reader.skip_stop hskip
                  have hpos := Reader.skip_pos hskip
                  refine ih (by omega) ?_ _
                  rw [Reader.remaining]
                  omega

theorem parseExtensions_eq {r : Reader} (hstop : r.stop ≤ len) (out : ClientHello) :
    parseExtensions data len r out = some (Tls.parseExtensions data r out) := by
  rw [parseExtensions, Tls.parseExtensions, u16_eq hstop, Option.bind_some]
  cases hu16 : r.u16 data with
  | none => rfl
  | some measured =>
      obtain ⟨extensionsLength, rest⟩ := measured
      have hrest : rest.stop ≤ len := Nat.le_trans (Reader.u16_within hu16).stop_le hstop
      dsimp only
      split
      · rfl
      rename_i hfits
      exact extensionsLoop_eq extensionsLength
        (Nat.le_trans (Reader.take_within hfits).stop_le hrest)
        (remaining_take_le rest extensionsLength) out

theorem skipFixedPart_eq {r : Reader} (hstop : r.stop ≤ len) :
    skipFixedPart data len r = some (Tls.skipFixedPart data r) := by
  rw [skipFixedPart, Tls.skipFixedPart]
  dsimp only [bind]
  cases h₁ : r.skip 2 with
  | none => rfl
  | some r₁ =>
  have hstop₁ : r₁.stop ≤ len := Nat.le_trans (Reader.skip_within h₁).stop_le hstop
  rw [Option.bind_some, Option.bind_some]
  cases h₂ : r₁.skip 32 with
  | none => rfl
  | some r₂ =>
  have hstop₂ : r₂.stop ≤ len := Nat.le_trans (Reader.skip_within h₂).stop_le hstop₁
  dsimp only
  rw [Option.bind_some, u8_eq hstop₂, Option.bind_some]
  cases h₃ : r₂.u8 data with
  | none => rfl
  | some sessionId =>
  have hstop₃ : sessionId.2.stop ≤ len := Nat.le_trans (Reader.u8_within h₃).stop_le hstop₂
  dsimp only
  rw [Option.bind_some]
  cases h₄ : sessionId.2.skip sessionId.1.toNat with
  | none => rfl
  | some r₄ =>
  have hstop₄ : r₄.stop ≤ len := Nat.le_trans (Reader.skip_within h₄).stop_le hstop₃
  dsimp only
  rw [Option.bind_some, u16_eq hstop₄, Option.bind_some]
  cases h₅ : r₄.u16 data with
  | none => rfl
  | some cipherSuites =>
  have hstop₅ : cipherSuites.2.stop ≤ len := Nat.le_trans (Reader.u16_within h₅).stop_le hstop₄
  dsimp only
  rw [Option.bind_some]
  cases h₆ : cipherSuites.2.skip cipherSuites.1 with
  | none => rfl
  | some r₆ =>
  have hstop₆ : r₆.stop ≤ len := Nat.le_trans (Reader.skip_within h₆).stop_le hstop₅
  dsimp only
  rw [Option.bind_some, u8_eq hstop₆]
  cases r₆.u8 data <;> rfl

/-- The handshake message is read inside the record. -/
theorem parseHandshake_eq {out : ClientHello}
    (htotal : out.recordTotalLength = recordHeaderSize + out.recordPayloadLength)
    (hinside : out.recordTotalLength ≤ len) :
    parseHandshake data len out = some (Tls.parseHandshake data out) := by
  have hheader : recordHeaderSize = 5 := rfl
  -- A name for the length keeps the bytes it is read from out of the comparison.
  obtain ⟨length, hlength⟩ : ∃ length, be24 data (recordHeaderSize + 1) = length := ⟨_, rfl⟩
  have hbody : handshakeBody data = ⟨recordHeaderSize + 4, recordHeaderSize + 4 + length,
      Nat.le_add_right _ _⟩ := by
    simp only [handshakeBody, hlength]
  rw [parseHandshake, Tls.parseHandshake_eq, hlength, hbody]
  split
  · rfl
  rename_i hshort
  rw [loadByte_of_lt (by omega), Option.bind_some]
  split
  · rfl
  rw [load24_of_le (by omega), Option.bind_some, hlength]
  dsimp only
  split
  · rfl
  rename_i hfits
  rw [skipFixedPart_eq (Nat.le_trans (Nat.le_of_not_lt hfits) hinside), Option.bind_some]
  cases hskip : Tls.skipFixedPart data ⟨recordHeaderSize + 4,
    recordHeaderSize + 4 + length, Nat.le_add_right _ _⟩ with
  | none => rfl
  | some r =>
      have hstop := skipFixedPart_stop hskip
      dsimp only at hstop
      rw [Option.elim_some]
      dsimp only
      split
      · rfl
      · exact parseExtensions_eq (by omega) out

/-- No read of the parser leaves the buffer, and its loops end. -/
theorem parseClientHello_eq (data : Memory) (len : ℕ) :
    parseClientHello data len = some (Tls.parseClientHello data len) := by
  have hheader : recordHeaderSize = 5 := rfl
  rw [parseClientHello, Tls.parseClientHello]
  split
  · rfl
  rw [loadByte_of_lt (by omega), Option.bind_some]
  split
  · rfl
  split
  · rfl
  rw [loadByte_of_lt (by omega), Option.bind_some]
  split
  · rfl
  split
  · rfl
  rw [load16_of_le (by omega), Option.bind_some]
  dsimp only
  split
  · rfl
  split
  · rfl
  exact parseHandshake_eq rfl (Nat.le_of_not_lt ‹_›)

/-- A round that goes on does so behind a record, which is not empty; so there is no more
than one round for each byte and one to find the end. -/
theorem classifyLoop_eq (fuel : ℕ) {rounds offset : ℕ} (hfuel : len ≤ offset + fuel)
    (hrounds : len - offset < rounds) :
    classifyLoop data len rounds offset = some (Tls.classifyLoop data len fuel offset) := by
  have hheader : recordHeaderSize = 5 := rfl
  induction fuel generalizing rounds offset with
  | zero =>
      obtain ⟨rounds, rfl⟩ := Nat.exists_eq_succ_of_ne_zero (Nat.ne_zero_of_lt hrounds)
      rw [classifyLoop, if_pos (by omega)]
      rfl
  | succ fuel ih =>
      obtain ⟨rounds, rfl⟩ := Nat.exists_eq_succ_of_ne_zero (Nat.ne_zero_of_lt hrounds)
      rw [classifyLoop, Tls.classifyLoop]
      by_cases hend : len ≤ offset
      · rw [if_pos hend, if_pos hend]
      by_cases hshort : len - offset < recordHeaderSize
      · rw [if_neg hend, if_pos hshort, if_neg hend, if_pos hshort]
      rw [if_neg hend, if_neg hshort, if_neg hend, if_neg hshort,
        loadByte_of_lt (by omega), Option.bind_some, loadByte_of_lt (by omega), Option.bind_some]
      by_cases hversion : data (offset + 1) ≠ 0x03
      · rw [if_pos hversion, if_pos hversion]
      rw [if_neg hversion, if_neg hversion, load16_of_le (by omega), Option.bind_some]
      dsimp only
      by_cases hpayload : be16 data (offset + 3) = 0 ∨ be16 data (offset + 3) > maxRecordPayload
      · rw [if_pos hpayload, if_pos hpayload]
      rw [if_neg hpayload, if_neg hpayload]
      by_cases hcut : len - offset < recordHeaderSize + be16 data (offset + 3)
      · rw [if_pos hcut, if_pos hcut]
      rw [if_neg hcut, if_neg hcut]
      by_cases halert : data offset = recordAlert
      · rw [if_pos halert, if_pos halert]
      rw [if_neg halert, if_neg halert]
      by_cases hhandshake : data offset = recordHandshake
      · rw [if_pos hhandshake, if_pos hhandshake]
        by_cases hfour : be16 data (offset + 3) ≥ 4
        · rw [if_pos hfour, loadByte_of_lt (by omega), Option.map_some]
          simp only [hfour, true_and]
        · rw [if_neg hfour, if_neg fun h => hfour h.1]
      rw [if_neg hhandshake, if_neg hhandshake]
      by_cases hother : data offset ≠ recordChangeCipherSpec
      · rw [if_pos hother, if_pos hother]
      rw [if_neg hother, if_neg hother]
      exact ih (by omega) (by omega)

theorem classifyServerResponse_eq (data : Memory) {len rounds : ℕ} (h : len < rounds) :
    classifyServerResponse data len rounds = some (Tls.classifyServerResponse data len) :=
  classifyLoop_eq len (Nat.le_add_left _ _) h

end

end Checked

end Tls

end SplitHello
