import Mathlib.Tactic.ByContra
import SplitHello.Tls.Checked

/-!
# The first flight of a server

The answer to a probe is classified from its first records. Compatibility records are
skipped, and what decides is the first record behind them, once it is complete. So a verdict
on a prefix of the stream is the verdict on every longer one. A handshake record counts as a
ServerHello by its first byte; how long the message says it is, is not looked at.
-/

namespace SplitHello

namespace Tls

open ByteString

/-- A record that is complete in a buffer of `len` bytes. -/
structure RecordAt (data : Memory) (len offset : ℕ) (contentType : UInt8) (payloadLength : ℕ) :
    Prop where
  type : data offset = contentType
  version : data (offset + 1) = 0x03
  length : be16 data (offset + 3) = payloadLength
  nonempty : payloadLength ≠ 0
  small : payloadLength ≤ maxRecordPayload
  complete : offset + recordHeaderSize + payloadLength ≤ len

/-- The offsets behind zero or more complete ChangeCipherSpec records. -/
inductive Skipped (data : Memory) (len : ℕ) : ℕ → Prop
  | start : Skipped data len 0
  | skip {offset payloadLength : ℕ} (hskipped : Skipped data len offset)
      (hrecord : RecordAt data len offset recordChangeCipherSpec payloadLength) :
      Skipped data len (offset + recordHeaderSize + payloadLength)

/-- Behind the compatibility records there is a complete handshake record that has room for
the header of a message, and the message is a ServerHello by its type. -/
structure HandshakeBehind (data : Memory) (len offset payloadLength : ℕ) : Prop where
  skipped : Skipped data len offset
  record : RecordAt data len offset recordHandshake payloadLength
  header : 4 ≤ payloadLength
  type : data (offset + recordHeaderSize) = handshakeServerHello

/-- The buffer starts with compatibility records and a handshake record whose payload begins
with a whole ServerHello message. -/
def CompleteServerHello (data : Memory) (len : ℕ) : Prop :=
  ∃ offset payloadLength, HandshakeBehind data len offset payloadLength ∧
    4 + be24 data (offset + recordHeaderSize + 1) ≤ payloadLength

/-- The message behind the compatibility records is longer than the record it begins in. -/
def Overstated (data : Memory) (len : ℕ) : Prop :=
  ∃ offset payloadLength, HandshakeBehind data len offset payloadLength ∧
    payloadLength < 4 + be24 data (offset + recordHeaderSize + 1)

section

variable {data : Memory} {len : ℕ}

/-- Two ways to skip compatibility records are one the continuation of the other. -/
theorem Skipped.next {offset' : ℕ} (h' : Skipped data len offset') {offset : ℕ}
    (h : Skipped data len offset) (hlt : offset < offset') :
    ∃ n, RecordAt data len offset recordChangeCipherSpec n ∧
      offset + recordHeaderSize + n ≤ offset' := by
  have hsize : recordHeaderSize = 5 := rfl
  -- The later offset goes down, to the end of its last record or to the earlier offset.
  induction offset' using Nat.strongRecOn generalizing offset with
  | ind offset' ih =>
      cases h' with
      | start => cases hlt
      | @skip last n hlast hrecord =>
          rcases Nat.lt_trichotomy offset last with hbefore | rfl | hbehind
          · obtain ⟨k, hk, hle⟩ := ih last (by omega) hlast h hbefore
            exact ⟨k, hk, by omega⟩
          · exact ⟨n, hrecord, Nat.le_refl _⟩
          · obtain ⟨k, hk, hle⟩ := ih offset hlt h hlast hbehind
            have hsame : k = n := hk.length.symm.trans hrecord.length
            omega

/-- There is one record behind the compatibility records. -/
theorem HandshakeBehind.offset_eq {offset offset' n n' : ℕ}
    (h : HandshakeBehind data len offset n) (h' : HandshakeBehind data len offset' n') :
    offset = offset' := by
  have hdiffer : recordChangeCipherSpec ≠ recordHandshake := by decide
  rcases Nat.lt_trichotomy offset offset' with hlt | heq | hlt
  · obtain ⟨k, hk, -⟩ := h'.skipped.next h.skipped hlt
    exact absurd (hk.type.symm.trans h.record.type) hdiffer
  · exact heq
  · obtain ⟨k, hk, -⟩ := h.skipped.next h'.skipped hlt
    exact absurd (hk.type.symm.trans h'.record.type) hdiffer

/-! ## One round -/

/-- A round at a complete record. -/
theorem classifyLoop_record {offset n : ℕ} {contentType : UInt8}
    (h : RecordAt data len offset contentType n) (fuel : ℕ) :
    classifyLoop data len (fuel + 1) offset =
      if contentType = recordAlert then .alert
      else if contentType = recordHandshake then
        if n ≥ 4 ∧ data (offset + recordHeaderSize) = handshakeServerHello then .serverHello
        else .unexpected
      else if contentType ≠ recordChangeCipherSpec then .unexpected
      else classifyLoop data len fuel (offset + recordHeaderSize + n) := by
  have hheader : recordHeaderSize = 5 := rfl
  have hcomplete := h.complete
  have hpayload : ¬ (n = 0 ∨ n > maxRecordPayload) :=
    not_or.2 ⟨h.nonempty, Nat.not_lt.2 h.small⟩
  rw [classifyLoop, if_neg (by omega), if_neg (by omega), if_neg (not_not.2 h.version),
    h.length, h.type]
  dsimp only
  rw [if_neg hpayload, if_neg (by omega), Nat.add_assoc offset]

/-- No record begins like this. -/
def BadHeader (data : Memory) (offset : ℕ) : Prop :=
  data (offset + 1) ≠ 0x03 ∨ be16 data (offset + 3) = 0 ∨ be16 data (offset + 3) > maxRecordPayload

theorem classifyLoop_bad {offset : ℕ} (hheader : offset + recordHeaderSize ≤ len)
    (hbad : BadHeader data offset) (fuel : ℕ) :
    classifyLoop data len (fuel + 1) offset = .unexpected := by
  have hsize : recordHeaderSize = 5 := rfl
  rw [classifyLoop, if_neg (by omega), if_neg (by omega)]
  split
  · rfl
  rename_i hversion
  exact if_pos (hbad.resolve_left hversion)

/-- What a round finds: a complete record, something that is no record, or too little. -/
theorem classifyLoop_cases (data : Memory) (len fuel offset : ℕ) :
    (∃ contentType n, RecordAt data len offset contentType n) ∨
      offset + recordHeaderSize ≤ len ∧ BadHeader data offset ∨
      classifyLoop data len (fuel + 1) offset = .needMore := by
  have hsize : recordHeaderSize = 5 := rfl
  by_cases hheader : offset + recordHeaderSize ≤ len
  · by_cases hbad : BadHeader data offset
    · exact Or.inr (Or.inl ⟨hheader, hbad⟩)
    · rw [BadHeader, not_or, not_or, not_not, Nat.not_lt] at hbad
      obtain ⟨hversion, hnonempty, hsmall⟩ := hbad
      by_cases hcomplete : offset + recordHeaderSize + be16 data (offset + 3) ≤ len
      · exact Or.inl ⟨_, _, rfl, hversion, rfl, hnonempty, hsmall, hcomplete⟩
      · refine Or.inr (Or.inr ?_)
        have hpayload :
            ¬ (be16 data (offset + 3) = 0 ∨ be16 data (offset + 3) > maxRecordPayload) :=
          not_or.2 ⟨hnonempty, Nat.not_lt.2 hsmall⟩
        rw [classifyLoop, if_neg (by omega), if_neg (by omega), if_neg (not_not.2 hversion)]
        dsimp only
        rw [if_neg hpayload, if_pos (by omega)]
  · refine Or.inr (Or.inr ?_)
    rw [classifyLoop]
    split
    · rfl
    · exact if_pos (by omega)

/-! ## Verdicts are final -/

theorem RecordAt.mono {offset n len' : ℕ} {contentType : UInt8}
    (h : RecordAt data len offset contentType n) (hle : len ≤ len') :
    RecordAt data len' offset contentType n :=
  { h with complete := Nat.le_trans h.complete hle }

theorem classifyLoop_mono {len' : ℕ} (hle : len ≤ len') (fuel : ℕ) {fuel' offset : ℕ}
    (hfuel' : len' ≤ offset + fuel') (h : classifyLoop data len fuel offset ≠ .needMore) :
    classifyLoop data len' fuel' offset = classifyLoop data len fuel offset := by
  have hsize : recordHeaderSize = 5 := rfl
  induction fuel generalizing fuel' offset with
  | zero => exact absurd rfl h
  | succ fuel ih =>
      rcases classifyLoop_cases data len fuel offset with
        ⟨contentType, n, hrecord⟩ | ⟨hheader, hbad⟩ | hmore
      · have hcomplete := hrecord.complete
        obtain ⟨fuel', rfl⟩ : ∃ k, fuel' = k + 1 := ⟨fuel' - 1, by omega⟩
        rw [classifyLoop_record hrecord] at h ⊢
        rw [classifyLoop_record (hrecord.mono hle)]
        split
        · rfl
        rename_i halert
        rw [if_neg halert] at h
        split
        · rfl
        rename_i hhandshake
        rw [if_neg hhandshake] at h
        split
        · rfl
        rename_i hskipped
        rw [if_neg hskipped] at h
        exact ih (by omega) h
      · obtain ⟨fuel', rfl⟩ : ∃ k, fuel' = k + 1 := ⟨fuel' - 1, by omega⟩
        rw [classifyLoop_bad hheader hbad, classifyLoop_bad (Nat.le_trans hheader hle) hbad]
      · exact absurd hmore h

theorem classifyServerResponse_mono {len' : ℕ} (hle : len ≤ len')
    (h : classifyServerResponse data len ≠ .needMore) :
    classifyServerResponse data len' = classifyServerResponse data len :=
  classifyLoop_mono hle len (Nat.le_add_left _ _) h

/-- Only the bytes of the buffer are looked at. -/
theorem classifyServerResponse_congr {data' : Memory} (h : Agree len data data') :
    classifyServerResponse data len = classifyServerResponse data' len := by
  have hloop (rounds : ℕ) (offset : ℕ) :
      Checked.classifyLoop data len rounds offset =
        Checked.classifyLoop data' len rounds offset := by
    induction rounds generalizing offset with
    | zero => rfl
    | succ rounds ih => simp only [Checked.classifyLoop, loadByte_congr h, load16_congr h, ih]
  have hleft := Checked.classifyServerResponse_eq data (Nat.lt_succ_self len)
  have hright := Checked.classifyServerResponse_eq data' (Nat.lt_succ_self len)
  exact Option.some.inj (hleft.symm.trans ((hloop (len + 1) 0).trans hright))

/-- The verdict on the first `n` bytes of a stream. -/
def classifyPrefix (stream : Bytes) (n : ℕ) : ServerResponseStatus :=
  classifyServerResponse (memory (stream.take n)) (stream.take n).length

/-- A stream and a prefix of it that has a verdict. -/
theorem classifyServerResponse_of_isPrefix {a b : Bytes} (hpre : a <+: b)
    (h : classifyServerResponse (memory a) a.length ≠ .needMore) :
    classifyServerResponse (memory b) b.length = classifyServerResponse (memory a) a.length := by
  rw [classifyServerResponse_congr (agree_of_isPrefix hpre)] at h ⊢
  exact classifyServerResponse_mono hpre.length_le h

theorem classifyPrefix_mono {stream : Bytes} {n m : ℕ} (hnm : n ≤ m)
    (h : classifyPrefix stream n ≠ .needMore) :
    classifyPrefix stream m = classifyPrefix stream n :=
  classifyServerResponse_of_isPrefix (List.take_prefix_take_left hnm) h

/-! ## What a ServerHello is taken for -/

/-- A ServerHello is reported from behind the compatibility records. -/
theorem classifyLoop_serverHello {fuel offset : ℕ} (hskipped : Skipped data len offset)
    (h : classifyLoop data len fuel offset = .serverHello) :
    ∃ offset n, HandshakeBehind data len offset n := by
  induction fuel generalizing offset with
  | zero => cases h
  | succ fuel ih =>
      rcases classifyLoop_cases data len fuel offset with
        ⟨contentType, n, hrecord⟩ | ⟨hheader, hbad⟩ | hmore
      · rw [classifyLoop_record hrecord] at h
        split at h
        · cases h
        split at h
        · rename_i hhandshake
          split at h
          · rename_i htype
            exact ⟨offset, n, hskipped, hhandshake ▸ hrecord, htype.1, htype.2⟩
          · cases h
        split at h
        · cases h
        rename_i hcompatible
        rw [not_not] at hcompatible
        exact ih (hskipped.skip (hcompatible ▸ hrecord)) h
      · rw [classifyLoop_bad hheader hbad] at h
        cases h
      · rw [hmore] at h
        cases h

/-- The loop gets behind the compatibility records. -/
theorem Skipped.classify {offset : ℕ} (h : Skipped data len offset) :
    ∃ fuel, len ≤ offset + fuel ∧
      classifyServerResponse data len = classifyLoop data len fuel offset := by
  induction h with
  | start => exact ⟨len, Nat.le_add_left _ _, rfl⟩
  | @skip offset n hskipped hrecord ih =>
      obtain ⟨fuel, hfuel, heq⟩ := ih
      have hcomplete := hrecord.complete
      have hsize : recordHeaderSize = 5 := rfl
      obtain ⟨fuel, rfl⟩ : ∃ k, fuel = k + 1 := ⟨fuel - 1, by omega⟩
      refine ⟨fuel, by omega, ?_⟩
      rw [heq, classifyLoop_record hrecord, if_neg (by decide), if_neg (by decide),
        if_neg (not_not.2 rfl)]

theorem classifyServerResponse_serverHello_iff (data : Memory) (len : ℕ) :
    classifyServerResponse data len = .serverHello ↔
      ∃ offset n, HandshakeBehind data len offset n := by
  constructor
  · exact classifyLoop_serverHello Skipped.start
  · rintro ⟨offset, n, h⟩
    obtain ⟨fuel, hfuel, heq⟩ := h.skipped.classify
    have hcomplete := h.record.complete
    have hsize : recordHeaderSize = 5 := rfl
    obtain ⟨fuel, rfl⟩ : ∃ k, fuel = k + 1 := ⟨fuel - 1, by omega⟩
    rw [heq, classifyLoop_record h.record, if_neg (by decide), if_pos rfl]
    exact if_pos ⟨h.header, h.type⟩

/-- A buffer is reported as a ServerHello only if it has a complete one, unless the message
behind the compatibility records is longer than its record. -/
theorem serverHello_complete_iff (data : Memory) (len : ℕ) :
    (classifyServerResponse data len = .serverHello → CompleteServerHello data len) ↔
      ¬ Overstated data len := by
  rw [classifyServerResponse_serverHello_iff]
  constructor
  · rintro hclaim ⟨offset, n, hbehind, hlong⟩
    obtain ⟨offset', n', hbehind', hwhole⟩ := hclaim ⟨offset, n, hbehind⟩
    have hoffset := hbehind.offset_eq hbehind'
    subst hoffset
    have hsame : n = n' := hbehind.record.length.symm.trans hbehind'.record.length
    omega
  · rintro hgood ⟨offset, n, hbehind⟩
    refine ⟨offset, n, hbehind, ?_⟩
    by_contra hlong
    exact hgood ⟨offset, n, hbehind, Nat.lt_of_not_le hlong⟩

/-- A handshake record of four bytes, in which a ServerHello of 64 bytes begins. -/
def sampleCutFlight : Bytes := [0x16, 3, 3, 0, 4, 2, 0, 0, 64]

/-- The sample is taken for a ServerHello, and there is none that is complete. -/
theorem cut_serverHello_accepted :
    classifyServerResponse (memory sampleCutFlight) sampleCutFlight.length = .serverHello ∧
      ¬ CompleteServerHello (memory sampleCutFlight) sampleCutFlight.length := by
  refine ⟨by decide, ?_⟩
  have hfirst : HandshakeBehind (memory sampleCutFlight) sampleCutFlight.length 0 4 :=
    ⟨.start, ⟨by decide, by decide, by decide, by decide, by decide, by decide⟩, by decide,
      by decide⟩
  rintro ⟨offset, n, hbehind, hwhole⟩
  obtain rfl := hfirst.offset_eq hbehind
  have hn : 4 = n := hfirst.record.length.symm.trans hbehind.record.length
  subst hn
  exact absurd hwhole (by decide)

end

end Tls

end SplitHello
