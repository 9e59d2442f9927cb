import SplitHello.Tls.Checked

/-!
# Hostile hellos

Record, handshake message, extension block, extension and name list all declare a length of
their own, and whoever sends the hello chooses them. `NameInside lo hi` says that a name
which was found lies between two offsets of the buffer; every stage of the parser keeps it,
because its cursors only move forward and never leave the region they were made for. The
name can stay behind when a later extension makes the hello malformed, so what is said of it
holds for every verdict.
-/

namespace SplitHello

namespace Tls

open ByteString

/-! ## Where the name stands -/

/-- A hostname that was found lies between the offsets `lo` and `hi`. -/
def NameInside (lo hi : ℕ) (out : ClientHello) : Prop :=
  out.hasSni = true → lo ≤ out.sniOffset ∧ out.sniOffset + out.sniLength ≤ hi

theorem keeps_nameInside (data : Memory) {r : Reader} {lo hi : ℕ} (hlo : lo ≤ r.pos)
    (hhi : r.stop ≤ hi) : Keeps data r (NameInside lo hi) :=
  ⟨fun _ hout => hout, fun _ _ _ hpos hstop _ _ => ⟨Nat.le_trans hlo hpos, Nat.le_trans hstop hhi⟩⟩

theorem skipFixedPart_within {data : Memory} {r r' : Reader}
    (hskip : skipFixedPart data r = some r') : r.Within r' := by
  rw [skipFixedPart] at hskip
  obtain ⟨r₁, h₁, hskip⟩ := Option.bind_eq_some_iff.1 hskip
  obtain ⟨r₂, h₂, hskip⟩ := Option.bind_eq_some_iff.1 hskip
  obtain ⟨sessionId, h₃, hskip⟩ := Option.bind_eq_some_iff.1 hskip
  obtain ⟨r₄, h₄, hskip⟩ := Option.bind_eq_some_iff.1 hskip
  obtain ⟨cipherSuites, h₅, hskip⟩ := Option.bind_eq_some_iff.1 hskip
  obtain ⟨r₆, h₆, hskip⟩ := Option.bind_eq_some_iff.1 hskip
  obtain ⟨compression, h₇, hskip⟩ := Option.bind_eq_some_iff.1 hskip
  have hversion := (Reader.skip_within h₁).trans (Reader.skip_within h₂)
  have hsession := (Reader.u8_within h₃).trans (Reader.skip_within h₄)
  have hcipher := (Reader.u16_within h₅).trans (Reader.skip_within h₆)
  have hcompression := (Reader.u8_within h₇).trans (Reader.skip_within hskip)
  exact (hversion.trans hsession).trans (hcipher.trans hcompression)

/-- Behind the handshake header, and inside the record. -/
theorem parseHandshake_nameInside (data : Memory) {out : ClientHello}
    (hout : out.hasSni = false) :
    NameInside (recordHeaderSize + 4) out.recordTotalLength (parseHandshake data out).2 := by
  have hnone : NameInside (recordHeaderSize + 4) out.recordTotalLength out := by
    intro hsni
    rw [hout] at hsni
    cases hsni
  rw [parseHandshake_eq]
  split
  · exact hnone
  split
  · exact hnone
  split
  · exact hnone
  rename_i hfits
  cases hskip : skipFixedPart data (handshakeBody data) with
  | none => exact hnone
  | some r =>
      rw [Option.elim_some]
      split
      · exact hnone
      have hwithin := skipFixedPart_within hskip
      refine parseExtensions_keeps (keeps_nameInside data hwithin.pos_le ?_) hnone
      refine Nat.le_trans hwithin.stop_le ?_
      dsimp only [handshakeBody]
      omega

/-- The name of an accepted hello is inside the payload of the record, behind the header
of the handshake message. -/
theorem parseClientHello_nameInside {data : Memory} {len : ℕ} {hello : ClientHello}
    (h : parseClientHello data len = (.ok, hello)) :
    NameInside (recordHeaderSize + 4) hello.recordTotalLength hello := by
  have hrecord := parseClientHello_ok h
  obtain ⟨-, -, -, hread⟩ := parseClientHello_reads h
  have hinside : NameInside (recordHeaderSize + 4) (recordHeaderSize + be16 data 3)
      (parseHandshake data { recordPayloadLength := be16 data 3
                             recordTotalLength := recordHeaderSize + be16 data 3 }).2 :=
    parseHandshake_nameInside data rfl
  rw [hread] at hinside
  rw [hrecord.total, hrecord.payload]
  exact hinside

/-- A hostname that was found is the bytes at its place. -/
def Quotes (data : Memory) (out : ClientHello) : Prop :=
  out.hasSni = true → out.serverName = slice data out.sniOffset out.sniLength

theorem keeps_quotes (data : Memory) (r : Reader) : Keeps data r (Quotes data) :=
  ⟨fun _ hout => hout, fun _ _ _ _ _ _ _ => rfl⟩

/-! ## What holds for every verdict -/

/-- Behind the handshake header the parser only goes where the record lengths are settled. -/
theorem parseHandshake_keeps (data : Memory) (out : ClientHello) {P : ClientHello → Prop}
    (hkeeps : ∀ r, Keeps data r P) (hout : P out) (hspans : P { out with spansRecords := true }) :
    P (parseHandshake data out).2 := by
  rw [parseHandshake_eq]
  split
  · exact hout
  split
  · exact hout
  split
  · exact hspans
  cases skipFixedPart data (handshakeBody data) with
  | none => exact hout
  | some r =>
      rw [Option.elim_some]
      split
      · exact hout
      · exact parseExtensions_keeps (hkeeps r) hout

/-- A hello that is more than a record header comes from a record that is all there. -/
theorem parseClientHello_cases (data : Memory) (len : ℕ) :
    (parseClientHello data len).1 ≠ .ok ∧ (parseClientHello data len).2.hasSni = false ∨
      recordHeaderSize + be16 data 3 ≤ len ∧
        parseClientHello data len =
          parseHandshake data { recordPayloadLength := be16 data 3
                                recordTotalLength := recordHeaderSize + be16 data 3 } := by
  rw [parseClientHello]
  split
  · exact Or.inl ⟨by simp, rfl⟩
  split
  · exact Or.inl ⟨by simp, rfl⟩
  split
  · exact Or.inl ⟨by simp, rfl⟩
  split
  · exact Or.inl ⟨by simp, rfl⟩
  split
  · exact Or.inl ⟨by simp, rfl⟩
  dsimp only
  split
  · exact Or.inl ⟨by simp, rfl⟩
  split
  · exact Or.inl ⟨by simp, rfl⟩
  · exact Or.inr ⟨Nat.le_of_not_lt ‹_›, rfl⟩

theorem parseHandshake_sameLengths (data : Memory) (out : ClientHello) :
    (parseHandshake data out).2.recordTotalLength = out.recordTotalLength :=
  parseHandshake_keeps (P := fun hello => hello.recordTotalLength = out.recordTotalLength) data out
    (fun _ => ⟨fun _ h => h, fun _ _ _ _ _ h => h⟩) rfl rfl

/-- A message that reaches behind the record is said to span records. -/
theorem parseHandshake_fits {data : Memory} {out : ClientHello}
    (hok : (parseHandshake data out).1 = .ok)
    (hspans : (parseHandshake data out).2.spansRecords = false) :
    recordHeaderSize + 4 + be24 data (recordHeaderSize + 1) ≤ out.recordTotalLength := by
  by_contra hbeyond
  rw [parseHandshake_eq] at hok hspans
  split at hok
  · cases hok
  rename_i hlong
  rw [if_neg hlong] at hspans
  split at hok
  · cases hok
  rename_i htype
  rw [if_neg htype, if_pos (Nat.lt_of_not_le hbeyond)] at hspans
  cases hspans

/-- The parser is safe on every buffer. No read leaves it; a hostname that was found, under
whatever verdict, is the bytes at its place, behind the handshake header and inside the
record, which is inside the buffer; and an accepted hello either spans records or has its
whole message in the first one. -/
theorem parseClientHello_hostile (data : Memory) (len : ℕ) :
    let hello := (parseClientHello data len).2
    Checked.parseClientHello data len = some (parseClientHello data len) ∧
      (hello.hasSni = true →
        9 ≤ hello.sniOffset ∧ hello.sniOffset + hello.sniLength ≤ hello.recordTotalLength ∧
          hello.recordTotalLength ≤ len ∧
          hello.serverName = slice data hello.sniOffset hello.sniLength) ∧
      ((parseClientHello data len).1 = .ok → hello.spansRecords = false →
        recordHeaderSize + 4 + be24 data (recordHeaderSize + 1) ≤ hello.recordTotalLength ∧
          hello.recordTotalLength ≤ len) := by
  dsimp only
  refine ⟨Checked.parseClientHello_eq data len, ?_⟩
  rcases parseClientHello_cases data len with ⟨hverdict, hnone⟩ | ⟨hinside, heq⟩
  · refine ⟨fun hsni => ?_, fun hok => absurd hok hverdict⟩
    rw [hnone] at hsni
    cases hsni
  · rw [heq, parseHandshake_sameLengths]
    constructor
    · intro hsni
      obtain ⟨hlo, hhi⟩ := parseHandshake_nameInside data rfl hsni
      have hquotes := parseHandshake_keeps data
        { recordPayloadLength := be16 data 3
          recordTotalLength := recordHeaderSize + be16 data 3 } (keeps_quotes data) nofun nofun
      exact ⟨hlo, hhi, hinside, hquotes hsni⟩
    · intro hok hspans
      exact ⟨parseHandshake_fits hok hspans, hinside⟩

end Tls

end SplitHello
