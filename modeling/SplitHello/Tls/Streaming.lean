import SplitHello.Tls.ClientHello

/-!
# Parsing a stream as it arrives

The parser looks at the bytes of the first record only, and it waits until the whole
record is there before it looks behind the header. A verdict on a prefix of a stream
is therefore the verdict on every longer prefix, and a prefix that has no verdict yet
is shorter than the longest record.
-/

namespace SplitHello

namespace Tls

open ByteString

/-! ## What a reader touches -/

namespace Reader

theorem skip_stop {r r' : Reader} {n : ℕ} (h : r.skip n = some r') : r'.stop = r.stop := by
  rw [skip] at h
  split at h
  · rw [← Option.some.inj h]
  · cases h

theorem u8_stop {data : Memory} {r r' : Reader} {value : UInt8}
    (h : r.u8 data = some (value, r')) : r'.stop = r.stop := by
  obtain ⟨next, hnext, heq⟩ := Option.map_eq_some_iff.1 h
  cases heq
  exact skip_stop hnext

theorem u16_stop {data : Memory} {r r' : Reader} {value : ℕ}
    (h : r.u16 data = some (value, r')) : r'.stop = r.stop := by
  obtain ⟨next, hnext, heq⟩ := Option.map_eq_some_iff.1 h
  cases heq
  exact skip_stop hnext

theorem skip_pos {r r' : Reader} {n : ℕ} (h : r.skip n = some r') : r'.pos = r.pos + n := by
  rw [skip] at h
  split at h
  · rw [← Option.some.inj h]
  · cases h

theorem u8_pos {data : Memory} {r r' : Reader} {value : UInt8}
    (h : r.u8 data = some (value, r')) : r'.pos = r.pos + 1 := by
  obtain ⟨next, hnext, heq⟩ := Option.map_eq_some_iff.1 h
  cases heq
  exact skip_pos hnext

theorem u16_pos {data : Memory} {r r' : Reader} {value : ℕ}
    (h : r.u16 data = some (value, r')) : r'.pos = r.pos + 2 := by
  obtain ⟨next, hnext, heq⟩ := Option.map_eq_some_iff.1 h
  cases heq
  exact skip_pos hnext

theorem skip_le {r r' : Reader} {n : ℕ} (h : r.skip n = some r') : r.pos + n ≤ r.stop := by
  have := r.le
  rw [skip] at h
  split at h
  · omega
  · cases h

theorem u8_congr {data data' : Memory} {n : ℕ} (h : Agree n data data') {r : Reader}
    (hstop : r.stop ≤ n) : r.u8 data = r.u8 data' := by
  rw [u8, u8]
  cases hskip : r.skip 1 with
  | none => rw [Option.map_none, Option.map_none]
  | some next =>
      have := skip_le hskip
      rw [Option.map_some, Option.map_some, h r.pos (by omega)]

theorem u16_congr {data data' : Memory} {n : ℕ} (h : Agree n data data') {r : Reader}
    (hstop : r.stop ≤ n) : r.u16 data = r.u16 data' := by
  rw [u16, u16]
  cases hskip : r.skip 2 with
  | none => rw [Option.map_none, Option.map_none]
  | some next =>
      have := skip_le hskip
      rw [Option.map_some, Option.map_some, h.be16 (by omega)]

end Reader

section

variable {data data' : Memory} {n : ℕ} (h : Agree n data data')

include h

theorem serverNameLoop_congr (fuel : ℕ) {list : Reader} (hstop : list.stop ≤ n)
    (out : ClientHello) :
    serverNameLoop data fuel list out = serverNameLoop data' fuel list out := by
  induction fuel generalizing list with
  | zero => rfl
  | succ fuel ih =>
      unfold serverNameLoop
      rw [← Reader.u8_congr h hstop]
      cases hu8 : list.u8 data with
      | none => rfl
      | some typed =>
          obtain ⟨nameType, list'⟩ := typed
          have hstop' : list'.stop ≤ n := by rw [Reader.u8_stop hu8]; exact hstop
          dsimp only
          rw [← Reader.u16_congr h hstop']
          cases hu16 : list'.u16 data with
          | none => rfl
          | some measured =>
              obtain ⟨nameLength, list''⟩ := measured
              have hstop'' : list''.stop ≤ n := by rw [Reader.u16_stop hu16]; exact hstop'
              have hle := list''.le
              dsimp only
              by_cases hfits : nameLength > list''.remaining
              · rw [if_pos hfits, if_pos hfits]
              · have hslice : slice data list''.pos nameLength =
                    slice data' list''.pos nameLength :=
                  h.slice (by rw [Reader.remaining] at hfits; omega)
                rw [if_neg hfits, if_neg hfits, hslice]
                cases hskip : list''.skip nameLength with
                | none => rfl
                | some rest =>
                    have hrest : rest.stop ≤ n := by rw [Reader.skip_stop hskip]; exact hstop''
                    dsimp only
                    rw [ih hrest]

theorem readServerName_congr {ext : Reader} (hstop : ext.stop ≤ n) (out : ClientHello) :
    readServerName data ext out = readServerName data' ext out := by
  rw [readServerName, readServerName, ← Reader.u16_congr h hstop]
  cases hu16 : ext.u16 data with
  | none => rfl
  | some measured =>
      obtain ⟨listLength, r⟩ := measured
      have hr : r.stop ≤ n := by rw [Reader.u16_stop hu16]; exact hstop
      have hle := r.le
      dsimp only
      by_cases hfits : listLength > r.remaining
      · rw [if_pos hfits, if_pos hfits]
      · rw [if_neg hfits, if_neg hfits]
        refine serverNameLoop_congr h listLength ?_ out
        rw [Reader.remaining] at hfits
        dsimp only [Reader.take]
        omega

theorem extensionsLoop_congr (fuel : ℕ) {block : Reader} (hstop : block.stop ≤ n)
    (out : ClientHello) :
    extensionsLoop data fuel block out = extensionsLoop data' fuel block out := by
  induction fuel generalizing block out with
  | zero => rfl
  | succ fuel ih =>
      unfold extensionsLoop
      rw [← Reader.u16_congr h hstop]
      cases htype : block.u16 data with
      | none => rfl
      | some typed =>
          obtain ⟨extType, block'⟩ := typed
          have hstop' : block'.stop ≤ n := by rw [Reader.u16_stop htype]; exact hstop
          dsimp only
          rw [← Reader.u16_congr h hstop']
          cases hlength : block'.u16 data with
          | none => rfl
          | some measured =>
              obtain ⟨extLength, block''⟩ := measured
              have hstop'' : block''.stop ≤ n := by rw [Reader.u16_stop hlength]; exact hstop'
              have hle := block''.le
              dsimp only
              by_cases hfits : extLength > block''.remaining
              · rw [if_pos hfits, if_pos hfits]
              · have hread : readServerName data (block''.take extLength) out =
                    readServerName data' (block''.take extLength) out := by
                  refine readServerName_congr h ?_ out
                  rw [Reader.remaining] at hfits
                  dsimp only [Reader.take]
                  omega
                rw [if_neg hfits, if_neg hfits, hread]
                cases hskip : block''.skip extLength with
                | none => rfl
                | some rest =>
                    have hrest : rest.stop ≤ n := by rw [Reader.skip_stop hskip]; exact hstop''
                    dsimp only
                    rw [ih hrest]

theorem parseExtensions_congr {r : Reader} (hstop : r.stop ≤ n) (out : ClientHello) :
    parseExtensions data r out = parseExtensions data' r out := by
  rw [parseExtensions, parseExtensions, ← Reader.u16_congr h hstop]
  cases hu16 : r.u16 data with
  | none => rfl
  | some measured =>
      obtain ⟨extensionsLength, rest⟩ := measured
      have hrest : rest.stop ≤ n := by rw [Reader.u16_stop hu16]; exact hstop
      have hle := rest.le
      dsimp only
      by_cases hfits : extensionsLength > rest.remaining
      · rw [if_pos hfits, if_pos hfits]
      · rw [if_neg hfits, if_neg hfits]
        refine extensionsLoop_congr h extensionsLength ?_ out
        rw [Reader.remaining] at hfits
        dsimp only [Reader.take]
        omega

theorem skipFixedPart_congr {r : Reader} (hstop : r.stop ≤ n) :
    skipFixedPart data r = skipFixedPart data' r := by
  rw [skipFixedPart, skipFixedPart]
  refine Option.bind_congr fun r₁ h₁ => ?_
  have hstop₁ : r₁.stop ≤ n := by rw [Reader.skip_stop h₁]; exact hstop
  refine Option.bind_congr fun r₂ h₂ => ?_
  have hstop₂ : r₂.stop ≤ n := by rw [Reader.skip_stop h₂]; exact hstop₁
  rw [Reader.u8_congr h hstop₂]
  refine Option.bind_congr fun sessionId h₃ => ?_
  have hstop₃ : sessionId.2.stop ≤ n := by rw [Reader.u8_stop h₃]; exact hstop₂
  refine Option.bind_congr fun r₄ h₄ => ?_
  have hstop₄ : r₄.stop ≤ n := by rw [Reader.skip_stop h₄]; exact hstop₃
  rw [Reader.u16_congr h hstop₄]
  refine Option.bind_congr fun cipherSuites h₅ => ?_
  have hstop₅ : cipherSuites.2.stop ≤ n := by rw [Reader.u16_stop h₅]; exact hstop₄
  refine Option.bind_congr fun r₆ h₆ => ?_
  have hstop₆ : r₆.stop ≤ n := by rw [Reader.skip_stop h₆]; exact hstop₅
  rw [Reader.u8_congr h hstop₆]

omit h in
theorem skipFixedPart_stop {r r' : Reader} (hskip : skipFixedPart data r = some r') :
    r'.stop = r.stop := by
  rw [skipFixedPart] at hskip
  obtain ⟨r₁, h₁, hskip⟩ := Option.bind_eq_some_iff.1 hskip
  obtain ⟨r₂, h₂, hskip⟩ := Option.bind_eq_some_iff.1 hskip
  obtain ⟨sessionId, h₃, hskip⟩ := Option.bind_eq_some_iff.1 hskip
  obtain ⟨r₄, h₄, hskip⟩ := Option.bind_eq_some_iff.1 hskip
  obtain ⟨cipherSuites, h₅, hskip⟩ := Option.bind_eq_some_iff.1 hskip
  obtain ⟨r₆, h₆, hskip⟩ := Option.bind_eq_some_iff.1 hskip
  obtain ⟨compression, h₇, hskip⟩ := Option.bind_eq_some_iff.1 hskip
  rw [Reader.skip_stop hskip, Reader.u8_stop h₇, Reader.skip_stop h₆, Reader.u16_stop h₅,
    Reader.skip_stop h₄, Reader.u8_stop h₃, Reader.skip_stop h₂, Reader.skip_stop h₁]

/-- The handshake message is read inside the record. -/
theorem parseHandshake_congr {out : ClientHello}
    (htotal : out.recordTotalLength = recordHeaderSize + out.recordPayloadLength)
    (hinside : out.recordTotalLength ≤ n) : parseHandshake data out = parseHandshake data' out := by
  rw [parseHandshake_eq, parseHandshake_eq]
  by_cases hshort : out.recordPayloadLength < 4
  · rw [if_pos hshort, if_pos hshort]
  · have hheader : recordHeaderSize = 5 := rfl
    have htype : data recordHeaderSize = data' recordHeaderSize := h _ (by omega)
    have hlength : be24 data (recordHeaderSize + 1) = be24 data' (recordHeaderSize + 1) :=
      h.be24 (by omega)
    have hbody : handshakeBody data = handshakeBody data' := by
      simp only [handshakeBody, hlength]
    rw [if_neg hshort, if_neg hshort, htype, hlength, hbody]
    split
    · rfl
    · split
      · rfl
      · rename_i hfits
        have hstop : (handshakeBody data').stop ≤ n := by
          dsimp only [handshakeBody]
          omega
        rw [skipFixedPart_congr h hstop]
        cases hskip : skipFixedPart data' (handshakeBody data') with
        | none => rw [Option.elim_none, Option.elim_none]
        | some r =>
            have hstop : r.stop ≤ n := by rwa [skipFixedPart_stop hskip]
            rw [Option.elim_some, Option.elim_some, parseExtensions_congr h hstop]

/-- Only the bytes of the buffer are looked at. -/
theorem parseClientHello_congr : parseClientHello data n = parseClientHello data' n := by
  rw [parseClientHello, parseClientHello]
  by_cases hempty : n = 0
  · rw [if_pos hempty, if_pos hempty]
  · rw [if_neg hempty, if_neg hempty, h 0 (by omega)]
    split
    · rfl
    · by_cases hone : n < 2
      · rw [if_pos hone, if_pos hone]
      · rw [if_neg hone, if_neg hone, h 1 (by omega)]
        split
        · rfl
        · by_cases hheader : n < recordHeaderSize
          · rw [if_pos hheader, if_pos hheader]
          · have hsize : recordHeaderSize = 5 := rfl
            rw [if_neg hheader, if_neg hheader, h.be16 (i := 3) (by omega)]
            dsimp only
            split
            · rfl
            · split
              · rfl
              · rename_i hrecord
                exact parseHandshake_congr h rfl (by dsimp only at hrecord ⊢; omega)

end

/-! ## Verdicts -/

/-- The verdict on the first `n` bytes of a stream. -/
def parsePrefix (stream : Bytes) (n : ℕ) : ParseStatus × ClientHello :=
  parseClientHello (memory (stream.take n)) (stream.take n).length

theorem extensionsLoop_ne_needMore (data : Memory) (fuel : ℕ) (block : Reader)
    (out : ClientHello) : (extensionsLoop data fuel block out).1 ≠ .needMore := by
  induction fuel generalizing block out with
  | zero => exact ParseStatus.noConfusion
  | succ fuel ih =>
      unfold extensionsLoop
      dsimp only
      repeat' split
      all_goals first | exact ParseStatus.noConfusion | exact ih _ _

theorem parseExtensions_ne_needMore (data : Memory) (r : Reader) (out : ClientHello) :
    (parseExtensions data r out).1 ≠ .needMore := by
  rw [parseExtensions]
  split
  · exact ParseStatus.noConfusion
  · split
    · exact ParseStatus.noConfusion
    · exact extensionsLoop_ne_needMore _ _ _ _

theorem parseHandshake_ne_needMore (data : Memory) (out : ClientHello) :
    (parseHandshake data out).1 ≠ .needMore := by
  rw [parseHandshake_eq]
  split
  · exact ParseStatus.noConfusion
  · split
    · exact ParseStatus.noConfusion
    · split
      · exact ParseStatus.noConfusion
      · cases skipFixedPart data (handshakeBody data) with
        | none => exact ParseStatus.noConfusion
        | some r =>
            rw [Option.elim_some]
            split
            · exact ParseStatus.noConfusion
            · exact parseExtensions_ne_needMore data r out

/-- A buffer has no verdict yet as long as it may be the beginning of a record. -/
theorem parseClientHello_needMore_iff (data : Memory) (len : ℕ) :
    (parseClientHello data len).1 = .needMore ↔
      len = 0 ∨ data 0 = recordHandshake ∧
        (len < 2 ∨ data 1 = 0x03 ∧
          (len < recordHeaderSize ∨
            (be16 data 3 ≠ 0 ∧ be16 data 3 ≤ maxRecordPayload) ∧
              len < recordHeaderSize + be16 data 3)) := by
  rw [parseClientHello]
  by_cases hempty : len = 0
  · simp [hempty]
  by_cases htype : data 0 = recordHandshake
  · by_cases hone : len < 2
    · simp [hempty, htype, hone]
    by_cases hversion : data 1 = 0x03
    · by_cases hheader : len < recordHeaderSize
      · simp [hempty, htype, hone, hversion, hheader]
      by_cases hpayload : be16 data 3 = 0 ∨ be16 data 3 > maxRecordPayload
      · have hbad : ¬ (be16 data 3 ≠ 0 ∧ be16 data 3 ≤ maxRecordPayload) := by omega
        simp [hempty, htype, hone, hversion, hheader, hpayload, hbad]
      · have hgood : be16 data 3 ≠ 0 ∧ be16 data 3 ≤ maxRecordPayload := by omega
        have hsmall : ¬ maxRecordPayload < be16 data 3 := by omega
        by_cases hrecord : len < recordHeaderSize + be16 data 3
        · simp [hempty, htype, hone, hversion, hheader, hgood, hsmall, hrecord]
        · simp [hempty, htype, hone, hversion, hheader, hgood, hsmall, hrecord,
            parseHandshake_ne_needMore]
    · simp [hempty, htype, hone, hversion]
  · simp [hempty, htype]

/-- A verdict does not change any more. -/
theorem parseClientHello_mono {data : Memory} {n m : ℕ} (hnm : n ≤ m)
    (h : (parseClientHello data n).1 ≠ .needMore) :
    parseClientHello data m = parseClientHello data n := by
  rw [Ne, parseClientHello_needMore_iff] at h
  rw [parseClientHello, parseClientHello]
  have hempty : n ≠ 0 := fun hzero => h (Or.inl hzero)
  rw [if_neg hempty, if_neg (show m ≠ 0 by omega)]
  by_cases htype : data 0 = recordHandshake
  · have hone : ¬ n < 2 := fun hlt => h (Or.inr ⟨htype, Or.inl hlt⟩)
    rw [if_neg (not_not.2 htype), if_neg (not_not.2 htype), if_neg hone,
      if_neg (show ¬ m < 2 by omega)]
    by_cases hversion : data 1 = 0x03
    · have hheader : ¬ n < recordHeaderSize :=
        fun hlt => h (Or.inr ⟨htype, Or.inr ⟨hversion, Or.inl hlt⟩⟩)
      rw [if_neg (not_not.2 hversion), if_neg (not_not.2 hversion), if_neg hheader,
        if_neg (show ¬ m < recordHeaderSize by omega)]
      dsimp only
      split
      · rfl
      · rename_i hpayload
        have hrecord : ¬ n < recordHeaderSize + be16 data 3 := by
          intro hlt
          exact h (Or.inr ⟨htype, Or.inr ⟨hversion, Or.inr ⟨by omega, hlt⟩⟩⟩)
        rw [if_neg hrecord, if_neg (show ¬ m < recordHeaderSize + be16 data 3 by omega)]
    · rw [if_pos hversion, if_pos hversion]
  · rw [if_pos htype, if_pos htype]

/-- A stream and a prefix of it that has a verdict. -/
theorem parseClientHello_of_isPrefix {a b : Bytes} (hpre : a <+: b)
    (h : (parseClientHello (memory a) a.length).1 ≠ .needMore) :
    parseClientHello (memory b) b.length = parseClientHello (memory a) a.length := by
  rw [parseClientHello_congr (agree_of_isPrefix hpre)] at h ⊢
  exact parseClientHello_mono hpre.length_le h

theorem parsePrefix_mono {stream : Bytes} {n m : ℕ} (hnm : n ≤ m)
    (h : (parsePrefix stream n).1 ≠ .needMore) : parsePrefix stream m = parsePrefix stream n :=
  parseClientHello_of_isPrefix (List.take_prefix_take_left hnm) h

/-- A buffer without a verdict is shorter than the longest record. -/
theorem needMore_length_lt {data : Memory} {len : ℕ}
    (h : (parseClientHello data len).1 = .needMore) :
    len < recordHeaderSize + maxRecordPayload := by
  rw [parseClientHello_needMore_iff] at h
  have hheader : recordHeaderSize = 5 := rfl
  have hmax : maxRecordPayload = 16384 := rfl
  omega

/-- A record is not accepted before its last byte. -/
theorem parsePrefix_of_exact {record : Bytes} {hello : ClientHello}
    (hok : parseClientHello (memory record) record.length = (.ok, hello))
    (hexact : hello.recordTotalLength = record.length) {n : ℕ} (hn : n < record.length) :
    (parsePrefix record n).1 = .needMore := by
  have hrecord := parseClientHello_ok hok
  have hlength : (record.take n).length = n := List.length_take_of_le (by omega)
  have hagree : Agree n (memory (record.take n)) (memory record) := by
    have := agree_of_isPrefix (List.take_prefix n record)
    rwa [hlength] at this
  have hge := hrecord.payload_ge
  have hle := hrecord.payload_le
  have htotal := hrecord.total
  rw [hrecord.payload] at hge hle htotal
  rw [parsePrefix, hlength, parseClientHello_congr hagree, parseClientHello_needMore_iff]
  exact Or.inr ⟨hrecord.contentType, Or.inr ⟨hrecord.version,
    Or.inr ⟨⟨by omega, hle⟩, by omega⟩⟩⟩

end Tls

end SplitHello
